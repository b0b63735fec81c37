import KrovaCoin.Mempool

/-!
# The accounting of the memory pool (`txmempool.cpp`)

The pool keeps the parents and the children of every entry, and the number, size and fees of the entry with all
its ancestors and with all its descendants.

* `updateForDescendants`, `updateTransactionsFromBlock` — the repair after blocks were disconnected.

A `setEntries` is a list of transaction ids in the order of `CompareIteratorByHash`. The fields of the entries are
words; the sums the functions make before they are added to a field are not reduced.
-/

namespace KrovaCoin

open Lib

/-- What ends a computation on the pool: a limit, with its `errString`, or a failed assertion. -/
inductive PoolFailure where
  | limit (errString : String)
  | assertion
  deriving DecidableEq

/-- `uint256::ToString`. -/
def hashString (hash : Uint256) : String :=
  String.ofList ((List.range 64).reverse.map fun i => Nat.digitChar ((hash >>> (4 * i)).toNat % 16))

/-! ## Entries -/

/-- The statistics of an entry with its descendants, `nCountWithDescendants` and so on, or with its ancestors. -/
structure Totals where
  nCount : UInt64
  nSize : UInt64
  nModFees : Int
  deriving DecidableEq

/-- `int64_t(x) > 0`. -/
def int64Positive (x : UInt64) : Bool := decide (0 < x.toNat) && decide (x.toNat < 9223372036854775808)

/-- What `UpdateDescendantState` and `UpdateAncestorState` have in common. -/
def Totals.update (t : Totals) (modifySize modifyFee modifyCount : Int) : Except PoolFailure Totals := do
  let nSize := t.nSize + UInt64.ofInt modifySize
  rejectIf (!int64Positive nSize) .assertion
  let nCount := t.nCount + UInt64.ofInt modifyCount
  rejectIf (!int64Positive nCount) .assertion
  return ⟨nCount, nSize, toInt64 (t.nModFees + modifyFee)⟩

/-- `CTxMemPoolEntry`. -/
structure MemPoolEntry where
  tx : CTransaction
  nFee : Int
  sigOpCount : UInt32
  feeDelta : Int
  withDescendants : Totals
  withAncestors : Totals
  nSigOpCountWithAncestors : UInt32
  deriving DecidableEq

namespace MemPoolEntry

/-- The constructor. -/
def new (tx : CTransaction) (nFee : Int) (sigOps : UInt32) : MemPoolEntry where
  tx := tx
  nFee := toInt64 nFee
  sigOpCount := sigOps
  feeDelta := 0
  withDescendants := ⟨1, UInt64.ofInt tx.getTotalSize, toInt64 nFee⟩
  withAncestors := ⟨1, UInt64.ofInt tx.getTotalSize, toInt64 nFee⟩
  nSigOpCountWithAncestors := sigOps

variable (e : MemPoolEntry)

def getTxSize : Nat := e.tx.getTotalSize

def getModifiedFee : Int := toInt64 (e.nFee + e.feeDelta)

def updateFeeDelta (newFeeDelta : Int) : MemPoolEntry :=
  { e with
    withDescendants.nModFees := toInt64 (e.withDescendants.nModFees + (newFeeDelta - e.feeDelta))
    withAncestors.nModFees := toInt64 (e.withAncestors.nModFees + (newFeeDelta - e.feeDelta))
    feeDelta := newFeeDelta }

def updateDescendantState (modifySize modifyFee modifyCount : Int) : Except PoolFailure MemPoolEntry := do
  let withDescendants ← e.withDescendants.update modifySize modifyFee modifyCount
  return { e with withDescendants }

def updateAncestorState (modifySize modifyFee modifyCount modifySigOps : Int) : Except PoolFailure MemPoolEntry := do
  let withAncestors ← e.withAncestors.update modifySize modifyFee modifyCount
  let nSigOpCountWithAncestors := e.nSigOpCountWithAncestors + UInt32.ofInt modifySigOps
  rejectIf (!decide (nSigOpCountWithAncestors.toNat < 2147483648)) .assertion
  return { e with withAncestors, nSigOpCountWithAncestors }

end MemPoolEntry

/-! ## The pool -/

abbrev SetEntries := List Uint256

/-- `setEntries::insert`. -/
def insertEntry (id : Uint256) (s : SetEntries) : SetEntries :=
  if id ∈ s then s else s.orderedInsert (fun a b => hashBytes a < hashBytes b) id

theorem nodup_insertEntry {id : Uint256} {s : SetEntries} (h : s.Nodup) : (insertEntry id s).Nodup := by
  unfold insertEntry
  split
  · exact h
  · rename_i hmem
    exact (List.perm_orderedInsert _ id s).nodup_iff.mpr (List.nodup_cons.mpr ⟨hmem, h⟩)

/-- `setEntries::insert` or `setEntries::erase`. -/
def putEntry (id : Uint256) (add : Bool) (s : SetEntries) : SetEntries := if add then insertEntry id s else s.erase id

theorem nodup_putEntry {id : Uint256} {add : Bool} {s : SetEntries} (h : s.Nodup) : (putEntry id add s).Nodup := by
  unfold putEntry
  split
  · exact nodup_insertEntry h
  · exact h.erase id

structure TxLinks where
  parents : SetEntries
  children : SetEntries
  parents_nodup : parents.Nodup
  children_nodup : children.Nodup

/-- `TxLinks()`. -/
def TxLinks.empty : TxLinks := ⟨[], [], List.nodup_nil, List.nodup_nil⟩

/-- `CTxMemPool`. An iterator of `mapTx` is the id of the transaction; `mapNextTx` and `mapSaplingNullifiers` map to the
    id of the spending transaction; a transaction without an entry in `mapDeltas` has the delta 0. -/
structure MemPool where
  mapTx : KMap Uint256 MemPoolEntry
  mapLinks : Uint256 → TxLinks
  mapNextTx : KMap COutPoint Uint256
  mapDeltas : Uint256 → Int
  mapSaplingNullifiers : KMap Uint256 Uint256
  totalTxSize : UInt64

/-- The limits of `CalculateMemPoolAncestors`. -/
structure AncestorLimits where
  limitAncestorCount : UInt64
  limitAncestorSize : UInt64
  limitDescendantCount : UInt64
  limitDescendantSize : UInt64

namespace MemPool

variable (pool : MemPool)

/-- The entry an iterator points to. -/
def find (it : Uint256) : Except PoolFailure MemPoolEntry :=
  match pool.mapTx.get it with
  | none => .error .assertion
  | some e => .ok e

def modify (it : Uint256) (f : MemPoolEntry → Except PoolFailure MemPoolEntry) : Except PoolFailure MemPool := do
  let e ← pool.find it
  let e' ← f e
  return { pool with mapTx := pool.mapTx.set it (some e') }

def getMemPoolParents (entry : Uint256) : SetEntries := (pool.mapLinks entry).parents

def getMemPoolChildren (entry : Uint256) : SetEntries := (pool.mapLinks entry).children

/-- `UpdateChild` and `UpdateParent`. -/
def updateChild (entry child : Uint256) (add : Bool) : MemPool :=
  { pool with mapLinks := Function.update pool.mapLinks entry { pool.mapLinks entry with
      children := putEntry child add (pool.mapLinks entry).children
      children_nodup := nodup_putEntry (pool.mapLinks entry).children_nodup } }

def updateParent (entry parent : Uint256) (add : Bool) : MemPool :=
  { pool with mapLinks := Function.update pool.mapLinks entry { pool.mapLinks entry with
      parents := putEntry parent add (pool.mapLinks entry).parents
      parents_nodup := nodup_putEntry (pool.mapLinks entry).parents_nodup } }

/-- A bound on the iterations of a walk over the entries. -/
def walkBound : Nat := pool.mapTx.keys.length + 1

/-- The result of a walk; it is never still running. -/
def walkResult {α : Type} : Except PoolFailure (Option α) → Except PoolFailure α
  | .error e => .error e
  | .ok none => .error .assertion
  | .ok (some a) => .ok a

/-! ### `CalculateMemPoolAncestors` -/

def searchParents (limits : AncestorLimits) (tx : CTransaction) : Except PoolFailure SetEntries :=
  tx.vin.foldlM (fun parentHashes txin =>
    if (pool.mapTx.get txin.prevout.hash).isSome then do
      let parentHashes := insertEntry txin.prevout.hash parentHashes
      rejectIf (decide (parentHashes.length + 1 > limits.limitAncestorCount.toNat))
        (.limit ("too many unconfirmed parents [limit: " ++ toString limits.limitAncestorCount ++ "]"))
      return parentHashes
    else return parentHashes) []

structure AncestorWalk where
  parentHashes : SetEntries
  setAncestors : SetEntries
  totalSizeWithAncestors : UInt64

def stageParents (limits : AncestorLimits) (setAncestors parents parentHashes : SetEntries) :
    Except PoolFailure SetEntries :=
  parents.foldlM (fun parentHashes phash => do
    let parentHashes := if phash ∈ setAncestors then parentHashes else insertEntry phash parentHashes
    rejectIf (decide (parentHashes.length + setAncestors.length + 1 > limits.limitAncestorCount.toNat))
      (.limit ("too many unconfirmed ancestors [limit: " ++ toString limits.limitAncestorCount ++ "]"))
    return parentHashes) parentHashes

def ancestorStep (limits : AncestorLimits) (entry : MemPoolEntry) (s : AncestorWalk) :
    Except PoolFailure (LoopStep AncestorWalk SetEntries) :=
  match s.parentHashes with
  | [] => .ok (.done s.setAncestors)
  | stageit :: parentHashes => do
    let stage ← pool.find stageit
    let setAncestors := insertEntry stageit s.setAncestors
    let totalSizeWithAncestors := s.totalSizeWithAncestors + UInt64.ofNat stage.getTxSize
    rejectIf (decide (stage.withDescendants.nSize + UInt64.ofNat entry.getTxSize > limits.limitDescendantSize))
      (.limit ("exceeds descendant size limit for tx " ++ hashString stage.tx.hash ++ " [limit: " ++
        toString limits.limitDescendantSize ++ "]"))
    rejectIf (decide (stage.withDescendants.nCount + 1 > limits.limitDescendantCount))
      (.limit ("too many descendants for tx " ++ hashString stage.tx.hash ++ " [limit: " ++
        toString limits.limitDescendantCount ++ "]"))
    rejectIf (decide (totalSizeWithAncestors > limits.limitAncestorSize))
      (.limit ("exceeds ancestor size limit [limit: " ++ toString limits.limitAncestorSize ++ "]"))
    let parentHashes ← stageParents limits setAncestors (pool.getMemPoolParents stageit) parentHashes
    return .next ⟨parentHashes, setAncestors, totalSizeWithAncestors⟩

/-- The parents the walk starts from. -/
def firstParents (limits : AncestorLimits) (entry : MemPoolEntry) (fSearchForParents : Bool) :
    Except PoolFailure SetEntries :=
  if fSearchForParents then pool.searchParents limits entry.tx
  else .ok (pool.getMemPoolParents entry.tx.hash)

/-- `CalculateMemPoolAncestors` with an empty `setAncestors`. -/
def calculateMemPoolAncestors (limits : AncestorLimits) (entry : MemPoolEntry) (fSearchForParents : Bool) :
    Except PoolFailure SetEntries := do
  let parentHashes ← pool.firstParents limits entry fSearchForParents
  walkResult (whileLoop (pool.ancestorStep limits entry) pool.walkBound
    ⟨parentHashes, [], UInt64.ofNat entry.getTxSize⟩)

/-! ### `addUnchecked` -/

def updateAncestorsOf (add : Bool) (it : Uint256) (setAncestors : SetEntries) : Except PoolFailure MemPool := do
  let pool := (pool.getMemPoolParents it).foldl (fun pool piter => pool.updateChild piter it add) pool
  let e ← pool.find it
  let updateCount : Int := if add then 1 else -1
  let updateSize := updateCount * e.getTxSize
  let updateFee := updateCount * e.getModifiedFee
  setAncestors.foldlM (fun pool ancestorIt =>
    pool.modify ancestorIt fun a => a.updateDescendantState updateSize updateFee updateCount) pool

def entriesOf (s : SetEntries) : Except PoolFailure (List MemPoolEntry) := s.mapM pool.find

def updateEntryForAncestors (it : Uint256) (setAncestors : SetEntries) : Except PoolFailure MemPool := do
  let ancestors ← pool.entriesOf setAncestors
  pool.modify it fun e => e.updateAncestorState
    (ancestors.map fun a => (a.getTxSize : Int)).sum (ancestors.map MemPoolEntry.getModifiedFee).sum
    setAncestors.length (ancestors.map fun a => (a.sigOpCount.toNat : Int)).sum

/-- `mapTx.insert(entry)` and `mapLinks.insert(make_pair(newit, TxLinks()))`. -/
def insertNew (entry : MemPoolEntry) : MemPool :=
  match pool.mapTx.get entry.tx.hash with
  | some _ => pool
  | none => { pool with
      mapTx := pool.mapTx.set entry.tx.hash (some entry)
      mapLinks := Function.update pool.mapLinks entry.tx.hash .empty }

/-- The new entry with the fee delta of `PrioritiseTransaction`. -/
def insertWithDelta (entry : MemPoolEntry) : Except PoolFailure MemPool :=
  if pool.mapDeltas entry.tx.hash ≠ 0 then
    (pool.insertNew entry).modify entry.tx.hash fun e => .ok (e.updateFeeDelta (pool.mapDeltas entry.tx.hash))
  else .ok (pool.insertNew entry)

/-- `mapNextTx.insert` for every input: a key that is there keeps its value. -/
def recordInputs (tx : CTransaction) : MemPool :=
  { pool with mapNextTx := tx.vin.foldl (fun next txin =>
      match next.get txin.prevout with
      | some _ => next
      | none => next.set txin.prevout (some tx.hash)) pool.mapNextTx }

def linkParents (tx : CTransaction) : MemPool :=
  (tx.vin.map fun txin => txin.prevout.hash).foldl (fun pool phash =>
    if (pool.mapTx.get phash).isSome then pool.updateParent tx.hash phash true else pool) pool

/-- The inputs of a transaction with zerocoin spends are neither recorded nor linked. -/
def linkInputs (tx : CTransaction) : MemPool :=
  if tx.hasZerocoinSpendInputs then pool else (pool.recordInputs tx).linkParents tx

/-- The nullifiers of a shielded transaction. -/
def recordNullifiers (tx : CTransaction) : MemPool :=
  if tx.isShieldedTx then
    { pool with mapSaplingNullifiers := tx.shieldedSpends.foldl (fun nullifiers sd =>
        nullifiers.set sd.nullifier (some tx.hash)) pool.mapSaplingNullifiers }
  else pool

/-- `addUnchecked`, with `hash = entry.GetTx().GetHash()`. -/
def addUnchecked (entry : MemPoolEntry) (setAncestors : SetEntries) : Except PoolFailure MemPool := do
  let tx := entry.tx
  let pool ← pool.insertWithDelta entry
  let pool := pool.linkInputs tx
  let pool ← pool.updateAncestorsOf true tx.hash setAncestors
  let pool ← pool.updateEntryForAncestors tx.hash setAncestors
  let pool := pool.recordNullifiers tx
  return { pool with totalTxSize := pool.totalTxSize + UInt64.ofNat entry.getTxSize }

/-! ### `UpdateTransactionsFromBlock` -/

abbrev CacheMap := Uint256 → Option SetEntries

/-- The loop over the children of one descendant: `stageEntries` and `setAllDescendants`. -/
def stageChildren (cachedDescendants : CacheMap) (setChildren : SetEntries) (s : SetEntries × SetEntries) :
    SetEntries × SetEntries :=
  setChildren.foldl (fun s childEntry =>
    match cachedDescendants childEntry with
    | some cached => (s.1, cached.foldl (fun all cacheEntry => insertEntry cacheEntry all) s.2)
    | none => if childEntry ∈ s.2 then s else (insertEntry childEntry s.1, s.2)) s

/-- One iteration of the walk. -/
def descendantStep (cachedDescendants : CacheMap) (s : SetEntries × SetEntries) :
    Except PoolFailure (LoopStep (SetEntries × SetEntries) SetEntries) :=
  match s.1 with
  | [] => .ok (.done s.2)
  | cit :: stageEntries => .ok (.next (stageChildren cachedDescendants (pool.getMemPoolChildren cit)
      (stageEntries, insertEntry cit s.2)))

end MemPool

/-- The variables of the second loop of `UpdateForDescendants`. -/
structure DescendantUpdate where
  pool : MemPool
  cachedDescendants : MemPool.CacheMap
  modifySize : Int
  modifyFee : Int
  modifyCount : Int

namespace MemPool

/-- One iteration of the second loop of `UpdateForDescendants`. -/
def addDescendant (updateIt : Uint256) (setExclude : List Uint256) (s : DescendantUpdate) (cit : Uint256) :
    Except PoolFailure DescendantUpdate := do
  let e ← s.pool.find cit
  if e.tx.hash ∈ setExclude then return s
  else
    let u ← s.pool.find updateIt
    let pool ← s.pool.modify cit fun d =>
      d.updateAncestorState u.getTxSize u.getModifiedFee 1 u.sigOpCount.toNat
    return {
      pool := pool
      cachedDescendants := Function.update s.cachedDescendants updateIt
        (some (insertEntry cit ((s.cachedDescendants updateIt).getD [])))
      modifySize := s.modifySize + e.getTxSize
      modifyFee := s.modifyFee + e.getModifiedFee
      modifyCount := s.modifyCount + 1 }

variable (pool : MemPool)

def updateForDescendants (updateIt : Uint256) (cachedDescendants : CacheMap) (setExclude : List Uint256) :
    Except PoolFailure (MemPool × CacheMap) := do
  let setAllDescendants ← walkResult (whileLoop (pool.descendantStep cachedDescendants) pool.walkBound
    (pool.getMemPoolChildren updateIt, []))
  let s ← setAllDescendants.foldlM (addDescendant updateIt setExclude) ⟨pool, cachedDescendants, 0, 0, 0⟩
  let pool ← s.pool.modify updateIt fun e => e.updateDescendantState s.modifySize s.modifyFee s.modifyCount
  return (pool, s.cachedDescendants)

/-- The transactions `mapNextTx` has for the outputs of a transaction. -/
def spenders (hash : Uint256) : List Uint256 :=
  (pool.mapNextTx.entries.filter fun entry => entry.1.hash = hash).map fun entry => entry.2

/-- One iteration of the loop over the spending transactions: the pool and `setChildren`. -/
def linkChild (it : Uint256) (setAlreadyIncluded : List Uint256) (s : MemPool × SetEntries) (childHash : Uint256) :
    Except PoolFailure (MemPool × SetEntries) := do
  let _ ← s.1.find childHash
  let setChildren := insertEntry childHash s.2
  if childHash ∉ s.2 ∧ childHash ∉ setAlreadyIncluded then
    return ((s.1.updateChild it childHash true).updateParent childHash it true, setChildren)
  else return (s.1, setChildren)

/-- One iteration of `UpdateTransactionsFromBlock`. -/
def updateFromBlock (setAlreadyIncluded : List Uint256) (s : MemPool × CacheMap) (hash : Uint256) :
    Except PoolFailure (MemPool × CacheMap) :=
  if (s.1.mapTx.get hash).isNone then return s
  else do
    let (pool, _) ← (s.1.spenders hash).foldlM (linkChild hash setAlreadyIncluded) (s.1, [])
    pool.updateForDescendants hash s.2 setAlreadyIncluded

def updateTransactionsFromBlock (vHashesToUpdate : List Uint256) : Except PoolFailure MemPool := do
  let (pool, _) ← vHashesToUpdate.reverse.foldlM (updateFromBlock vHashesToUpdate) (pool, fun _ => none)
  return pool

end MemPool

end KrovaCoin
