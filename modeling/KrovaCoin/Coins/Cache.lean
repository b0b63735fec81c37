import KrovaCoin.Primitives
import KrovaCoin.Lib.KeyedMap

/-!
# Coin caches (`coins.h`, `coins.cpp`)

A stack of `CCoinsViewCache` layers over a base view, the topmost layer first. The unordered maps of the source are
`KMap`s, whose list order stands for an arbitrary iteration order; every function returns the layers as its `const`
calls leave them, since reading fills the caches below.

* `getCoin`, `addCoin`, `spendCoin`, `uncache` — the coin operations of one layer.
* `getSaplingAnchorAt`, `getNullifier`, `getBestAnchor`, `pushAnchor`, `popAnchor`, `setNullifiers` —
  the Sapling operations; the tree type is a parameter, as it is in `AbstractPushAnchor`.
* `CCoinsViewCache.batchWrite`, `BaseView.batchWrite`, `flush` — the three merge rules.
-/

namespace KrovaCoin

open Lib

/-! ## Coins -/

/-- `Coin`: a UTXO entry. -/
structure Coin where
  fCoinBase : Bool
  fCoinStake : Bool
  out : CTxOut
  nHeight : Nat
  deriving DecidableEq, Repr

/-- `coinEmpty`, the state `Coin::Clear` leaves. -/
def coinEmpty : Coin := ⟨false, false, .null, 0⟩

namespace Coin

def isSpent (c : Coin) : Bool := c.out.isNull

def live (c : Coin) : Option Coin := if c.isSpent then none else some c

@[simp] theorem live_coinEmpty : coinEmpty.live = none := rfl

theorem live_of_isSpent {c : Coin} (h : c.isSpent = true) : c.live = none := if_pos h

theorem live_of_not_isSpent {c : Coin} (h : c.isSpent = false) : c.live = some c := by
  simp [live, h]

theorem live_eq_some {c c' : Coin} : c.live = some c' ↔ c = c' ∧ c.isSpent = false := by
  unfold live
  split
  · simp_all
  · simp_all

theorem live_eq_none_iff {c : Coin} : c.live = none ↔ c.isSpent = true := by
  simp [live]

end Coin

/-! ## Layers -/

/-- `CCoinsCacheEntry` with its two flags. -/
structure CCoinsCacheEntry where
  coin : Coin
  dirty : Bool
  fresh : Bool
  deriving DecidableEq, Repr

structure CAnchorsSaplingCacheEntry (T : Type) where
  entered : Bool
  tree : T
  dirty : Bool
  deriving DecidableEq, Repr

structure CNullifiersCacheEntry where
  entered : Bool
  dirty : Bool
  deriving DecidableEq, Repr

structure CCoinsViewCache (T : Type) where
  hashBlock : Uint256
  cacheCoins : KMap COutPoint CCoinsCacheEntry
  hashSaplingAnchor : Uint256
  cacheSaplingAnchors : KMap Uint256 (CAnchorsSaplingCacheEntry T)
  cacheSaplingNullifiers : KMap Uint256 CNullifiersCacheEntry

/-- The view at the bottom: the records of the chainstate database. -/
structure BaseView (T : Type) where
  coins : KMap COutPoint Coin
  hashBlock : Uint256
  saplingAnchors : KMap Uint256 T
  saplingNullifiers : KMap Uint256 Unit
  hashSaplingAnchor : Option Uint256

/-- What the caches use of the commitment tree. -/
structure TreeOps (T : Type) where
  root : T → Uint256
  emptyTree : T

def TreeOps.emptyRoot {T : Type} (ops : TreeOps T) : Uint256 := ops.root ops.emptyTree

/-- The exceptions and assertions of the cache. -/
inductive CacheError where
  | replacesNonPruned
  | freshMisapplied
  | assertion
  deriving DecidableEq, Repr

/-- The message of the exception. -/
def CacheError.what : CacheError → String
  | .replacesNonPruned => "Adding new coin that replaces non-pruned entry"
  | .freshMisapplied =>
    "FRESH flag misapplied to cache entry for base transaction with spendable outputs"
  | .assertion => "assertion failed"

variable {T : Type}

namespace CCoinsViewCache

/-- A new layer, `CCoinsViewCache(base)`. -/
def new : CCoinsViewCache T := ⟨UINT256_ZERO, ∅, UINT256_ZERO, ∅, ∅⟩

/-- The layer after `Flush`: the maps are cleared, the two hashes stay. -/
def cleared (c : CCoinsViewCache T) : CCoinsViewCache T :=
  { c with cacheCoins := ∅, cacheSaplingAnchors := ∅, cacheSaplingNullifiers := ∅ }

def setCoin (c : CCoinsViewCache T) (o : COutPoint) (e : Option CCoinsCacheEntry) : CCoinsViewCache T :=
  { c with cacheCoins := KMap.set c.cacheCoins o e }

end CCoinsViewCache

/-! ## Coin operations -/

/-- `FetchCoin`, given `base->GetCoin`. -/
def fetchCoin (baseGet : COutPoint → Option Coin × List (CCoinsViewCache T))
    (c : CCoinsViewCache T) (below : List (CCoinsViewCache T)) (o : COutPoint) :
    Option CCoinsCacheEntry × CCoinsViewCache T × List (CCoinsViewCache T) :=
  match KMap.get c.cacheCoins o with
  | some e => (some e, c, below)
  | none =>
    match baseGet o with
    | (none, below) => (none, c, below)
    | (some tmp, below) => (some ⟨tmp, false, tmp.isSpent⟩, c.setCoin o (some ⟨tmp, false, tmp.isSpent⟩), below)

/-- `GetCoin`: the coin it stores, `none` where it returns `false`. -/
def getCoin (base : BaseView T) : List (CCoinsViewCache T) → COutPoint → Option Coin × List (CCoinsViewCache T)
  | [], o => (KMap.get base.coins o, [])
  | c :: below, o =>
    let r := fetchCoin (getCoin base below) c below o
    (r.1.map CCoinsCacheEntry.coin, r.2.1 :: r.2.2)

def haveCoin (base : BaseView T) (layers : List (CCoinsViewCache T)) (o : COutPoint) :
    Bool × List (CCoinsViewCache T) :=
  let r := getCoin base layers o
  (r.1.any fun coin => !coin.isSpent, r.2)

def accessCoin (base : BaseView T) (layers : List (CCoinsViewCache T)) (o : COutPoint) :
    Coin × List (CCoinsViewCache T) :=
  let r := getCoin base layers o
  (r.1.getD coinEmpty, r.2)

def CCoinsViewCache.addCoin (c : CCoinsViewCache T) (o : COutPoint) (coin : Coin)
    (possible_overwrite : Bool) : Except CacheError (CCoinsViewCache T) :=
  if coin.isSpent then .error .assertion
  else if coin.out.scriptPubKey.isUnspendable then .ok c
  else if coin.out.isZerocoinMint then .ok c
  else
    let e := (KMap.get c.cacheCoins o).getD ⟨coinEmpty, false, false⟩
    if !possible_overwrite && !e.coin.isSpent then .error .replacesNonPruned
    else .ok (c.setCoin o (some ⟨coin, true, e.fresh || (!possible_overwrite && !e.dirty)⟩))

/-- `SpendCoin`: the coin moved out, and the layers. -/
def spendCoin (base : BaseView T) (c : CCoinsViewCache T) (below : List (CCoinsViewCache T))
    (o : COutPoint) : Option Coin × List (CCoinsViewCache T) :=
  match fetchCoin (getCoin base below) c below o with
  | (none, c, below) => (none, c :: below)
  | (some e, c, below) =>
    (some e.coin,
      c.setCoin o (if e.fresh then none else some ⟨coinEmpty, true, e.fresh⟩) :: below)

def CCoinsViewCache.uncache (c : CCoinsViewCache T) (o : COutPoint) : CCoinsViewCache T :=
  match KMap.get c.cacheCoins o with
  | some e => if !e.dirty && !e.fresh then c.setCoin o none else c
  | none => c

/-! ## Sapling operations -/

def BaseView.getSaplingAnchorAt (ops : TreeOps T) (base : BaseView T) (rt : Uint256) : Option T :=
  if rt = ops.emptyRoot then some ops.emptyTree else KMap.get base.saplingAnchors rt

def BaseView.getBestAnchor (ops : TreeOps T) (base : BaseView T) : Uint256 :=
  base.hashSaplingAnchor.getD ops.emptyRoot

def getSaplingAnchorAt (ops : TreeOps T) (base : BaseView T) :
    List (CCoinsViewCache T) → Uint256 → Option T × List (CCoinsViewCache T)
  | [], rt => (base.getSaplingAnchorAt ops rt, [])
  | c :: below, rt =>
    match KMap.get c.cacheSaplingAnchors rt with
    | some e => (if e.entered then some e.tree else none, c :: below)
    | none =>
      match getSaplingAnchorAt ops base below rt with
      | (none, below) => (none, c :: below)
      | (some tree, below) =>
        (some tree,
          { c with cacheSaplingAnchors := KMap.set c.cacheSaplingAnchors rt (some ⟨true, tree, false⟩) }
            :: below)

def getNullifier (base : BaseView T) : List (CCoinsViewCache T) → Uint256 → Bool × List (CCoinsViewCache T)
  | [], nf => ((KMap.get base.saplingNullifiers nf).isSome, [])
  | c :: below, nf =>
    match KMap.get c.cacheSaplingNullifiers nf with
    | some e => (e.entered, c :: below)
    | none =>
      let r := getNullifier base below nf
      (r.1, { c with
          cacheSaplingNullifiers := KMap.set c.cacheSaplingNullifiers nf (some ⟨r.1, false⟩) } :: r.2)

def getBestAnchor (ops : TreeOps T) (base : BaseView T) : List (CCoinsViewCache T) → Uint256 × List (CCoinsViewCache T)
  | [] => (base.getBestAnchor ops, [])
  | c :: below =>
    if c.hashSaplingAnchor = UINT256_ZERO then
      let r := getBestAnchor ops base below
      (r.1, { c with hashSaplingAnchor := r.1 } :: r.2)
    else (c.hashSaplingAnchor, c :: below)

def getBestBlock (base : BaseView T) : List (CCoinsViewCache T) → Uint256 × List (CCoinsViewCache T)
  | [] => (base.hashBlock, [])
  | c :: below =>
    if c.hashBlock = UINT256_ZERO then
      let r := getBestBlock base below
      (r.1, { c with hashBlock := r.1 } :: r.2)
    else (c.hashBlock, c :: below)

def CCoinsViewCache.setBestBlock (c : CCoinsViewCache T) (hashBlock : Uint256) : CCoinsViewCache T :=
  { c with hashBlock := hashBlock }

def pushAnchor (ops : TreeOps T) (base : BaseView T) (layers : List (CCoinsViewCache T)) (tree : T) :
    List (CCoinsViewCache T) :=
  let r := getBestAnchor ops base layers
  if r.1 = ops.root tree then r.2
  else
    match r.2 with
    | [] => []
    | c :: below =>
      { c with
        hashSaplingAnchor := ops.root tree
        cacheSaplingAnchors :=
          KMap.set c.cacheSaplingAnchors (ops.root tree) (some ⟨true, tree, true⟩) } :: below

/-- `PopAnchor`; the assertion is that of `BringBestAnchorIntoCache`. -/
def popAnchor (ops : TreeOps T) (base : BaseView T) (layers : List (CCoinsViewCache T))
    (newrt : Uint256) : Except CacheError (List (CCoinsViewCache T)) :=
  let r := getBestAnchor ops base layers
  if r.1 = newrt then .ok r.2
  else
    match getSaplingAnchorAt ops base r.2 r.1 with
    | (none, _) => .error .assertion
    | (some _, []) => .ok []
    | (some tree, c :: below) =>
      .ok ({ c with
        hashSaplingAnchor := newrt
        cacheSaplingAnchors :=
          KMap.set c.cacheSaplingAnchors r.1 (some ⟨false, tree, true⟩) } :: below)

/-- `SetNullifiers` for the nullifiers of a transaction's shielded spends. -/
def CCoinsViewCache.setNullifiers (c : CCoinsViewCache T) (nullifiers : List Uint256) (spent : Bool) :
    CCoinsViewCache T :=
  { c with
    cacheSaplingNullifiers :=
      nullifiers.foldl (fun m nf => KMap.set m nf (some ⟨spent, true⟩)) c.cacheSaplingNullifiers }

/-! ## Flushing -/

/-- One iteration of the coin loop of `CCoinsViewCache::BatchWrite`: what it leaves in the parent. -/
def mergeCoin (_ : COutPoint) (child : CCoinsCacheEntry) (us : Option CCoinsCacheEntry) :
    Except CacheError (Option CCoinsCacheEntry) :=
  if !child.dirty then .ok us
  else
    match us with
    | none =>
      if child.fresh && child.coin.isSpent then .ok none
      else .ok (some ⟨child.coin, true, child.fresh⟩)
    | some us =>
      if child.fresh && !us.coin.isSpent then .error .freshMisapplied
      else if us.fresh && child.coin.isSpent then .ok none
      else .ok (some ⟨child.coin, true, us.fresh⟩)

/-- One iteration of `BatchWriteAnchors` into a cache. -/
def mergeAnchor (_ : Uint256) (child : CAnchorsSaplingCacheEntry T) (parent : Option (CAnchorsSaplingCacheEntry T)) :
    Except CacheError (Option (CAnchorsSaplingCacheEntry T)) :=
  if !child.dirty then .ok parent
  else
    match parent with
    | none => .ok (some ⟨child.entered, child.tree, true⟩)
    | some parent =>
      if parent.entered != child.entered then .ok (some ⟨child.entered, parent.tree, true⟩)
      else .ok (some parent)

/-- One iteration of `BatchWriteNullifiers` into a cache. -/
def mergeNullifier (_ : Uint256) (child : CNullifiersCacheEntry)
    (parent : Option CNullifiersCacheEntry) : Except CacheError (Option CNullifiersCacheEntry) :=
  if !child.dirty then .ok parent
  else
    match parent with
    | none => .ok (some ⟨child.entered, true⟩)
    | some parent =>
      if parent.entered != child.entered then .ok (some ⟨child.entered, true⟩) else .ok (some parent)

def CCoinsViewCache.batchWrite (p child : CCoinsViewCache T) : Except CacheError (CCoinsViewCache T) := do
  let coins ← KMap.merge mergeCoin child.cacheCoins p.cacheCoins
  let anchors ← KMap.merge mergeAnchor child.cacheSaplingAnchors p.cacheSaplingAnchors
  let nullifiers ← KMap.merge mergeNullifier child.cacheSaplingNullifiers p.cacheSaplingNullifiers
  return ⟨child.hashBlock, coins, child.hashSaplingAnchor, anchors, nullifiers⟩

/-- One coin record of `CCoinsViewDB::BatchWrite`. -/
def writeCoin (_ : COutPoint) (child : CCoinsCacheEntry) (old : Option Coin) : Except CacheError (Option Coin) :=
  if !child.dirty then .ok old else if child.coin.isSpent then .ok none else .ok (some child.coin)

/-- One anchor record of `CCoinsViewDB::BatchWriteSapling`. -/
def writeAnchor (ops : TreeOps T) (rt : Uint256) (child : CAnchorsSaplingCacheEntry T)
    (old : Option T) : Except CacheError (Option T) :=
  if !child.dirty then .ok old
  else if !child.entered then .ok none
  else if rt = ops.emptyRoot then .ok old
  else .ok (some child.tree)

/-- One nullifier record of `CCoinsViewDB::BatchWriteSapling`. -/
def writeNullifier (_ : Uint256) (child : CNullifiersCacheEntry) (old : Option Unit) :
    Except CacheError (Option Unit) :=
  if !child.dirty then .ok old else if child.entered then .ok (some ()) else .ok none

/-- The whole of `CCoinsViewDB::BatchWrite`, all batches written. -/
def BaseView.batchWrite (ops : TreeOps T) (base : BaseView T) (child : CCoinsViewCache T) :
    Except CacheError (BaseView T) := do
  let coins ← KMap.merge writeCoin child.cacheCoins base.coins
  let anchors ← KMap.merge (writeAnchor ops) child.cacheSaplingAnchors base.saplingAnchors
  let nullifiers ← KMap.merge writeNullifier child.cacheSaplingNullifiers base.saplingNullifiers
  return ⟨coins, child.hashBlock, anchors, nullifiers,
    if child.hashSaplingAnchor = UINT256_ZERO then base.hashSaplingAnchor
    else some child.hashSaplingAnchor⟩

/-- `Flush` of the topmost layer. -/
def flush (ops : TreeOps T) (base : BaseView T) :
    List (CCoinsViewCache T) → Except CacheError (BaseView T × List (CCoinsViewCache T))
  | [] => .ok (base, [])
  | [c] => do
    let base ← base.batchWrite ops c
    return (base, [c.cleared])
  | c :: p :: below => do
    let p ← p.batchWrite c
    return (base, c.cleared :: p :: below)

end KrovaCoin
