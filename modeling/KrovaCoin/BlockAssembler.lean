import KrovaCoin.Mempool

/-!
# Selecting transactions for a block (`blockassembler.cpp`)

`addPackageTxs` walks the pool in the order of the fee rates of its packages: an entry with those of its ancestors that
are not in the block yet. The statistics of entries with an ancestor in the block are kept in `mapModifiedTx`.

* `considerPackage` — one package: it is added, it is put aside, or the selection ends.
* `Selecting` — the invariant of the loop.

Principal result: `addPackageTxs_includes`.
-/

namespace KrovaCoin

open Lib

/-! ## The state -/

/-- The limit for the size of a block that `-blockmaxsize` has given, the fee rate for relay, and what the
    selection reads of the chain. -/
structure AssemblerContext where
  minRelayTxFee : Int
  nBlockMaxSize : Nat
  nHeight : Nat
  adjustedTime : Int
  fSaplingMaintenance : Bool
  nBlockMaxSize_le : nBlockMaxSize ≤ MAX_BLOCK_SIZE_CURRENT - 1000

theorem defaultBlockMaxSize_le : 750000 ≤ MAX_BLOCK_SIZE_CURRENT - 1000 := by decide

/-- `BlockAssembler`; `inBlock` has the entries in the order in which they were added. -/
structure BlockAssembler where
  inBlock : List CTxMemPoolEntry
  nBlockSize : UInt64
  nBlockSigOps : UInt32
  nSizeShielded : UInt32
  nFees : Int
  deriving DecidableEq

/-- `resetBlock` of a new assembler. -/
def resetBlock : BlockAssembler := ⟨[], 1000, 100, 0, 0⟩

abbrev ModifiedTxs := KMap CTxMemPoolEntry PackageStats

/-- The variables of `addPackageTxs`; `mi` is the rest of the index. -/
structure SelectState where
  assembler : BlockAssembler
  mi : List CTxMemPoolEntry
  mapModifiedTx : ModifiedTxs
  failedTx : List CTxMemPoolEntry

/-! ## Packages -/

namespace BlockAssembler

def testPackage (ctx : AssemblerContext) (a : BlockAssembler) (packageSize : UInt64) (packageSigOps : UInt32) : Bool :=
  if (a.nBlockSize + packageSize).toNat ≥ ctx.nBlockMaxSize then false
  else if (a.nBlockSigOps + packageSigOps).toNat ≥ MAX_BLOCK_SIGOPS_CURRENT then false
  else true

def addToBlock (a : BlockAssembler) (iter : CTxMemPoolEntry) : BlockAssembler :=
  { a with
    inBlock := a.inBlock ++ [iter]
    nBlockSize := a.nBlockSize + UInt64.ofNat iter.getTxSize
    nBlockSigOps := a.nBlockSigOps + iter.sigOpCount
    nFees := toInt64 (a.nFees + iter.nFee) }

def onlyUnconfirmed (a : BlockAssembler) (testSet : List CTxMemPoolEntry) : List CTxMemPoolEntry :=
  testSet.filter fun e => decide (e ∉ a.inBlock)

end BlockAssembler

def testPackageFinality (ctx : AssemblerContext) (package : List CTxMemPoolEntry) : Bool :=
  package.all fun e => isFinalTx ctx.adjustedTime e.tx ctx.nHeight 0

def compareTxIterByAncestorCount (a b : CTxMemPoolEntry) : Bool :=
  if a.nCountWithAncestors ≠ b.nCountWithAncestors then decide (a.nCountWithAncestors < b.nCountWithAncestors)
  else compareIteratorByHash a b

def sortForBlock (package : List CTxMemPoolEntry) : List CTxMemPoolEntry :=
  package.insertionSort fun a b => compareTxIterByAncestorCount b a = false

/-- The loop that adds the entries of a package; it ends at a shielded transaction that may not be added. -/
def addSorted (ctx : AssemblerContext) : List CTxMemPoolEntry → BlockAssembler × ModifiedTxs →
    BlockAssembler × ModifiedTxs
  | [], s => s
  | e :: es, (a, mods) =>
    if e.isShielded then
      if ctx.fSaplingMaintenance ∨ a.nSizeShielded.toNat + e.getTxSize > MAX_BLOCK_SHIELDED_TXES_SIZE then (a, mods)
      else addSorted ctx es
        (({ a with nSizeShielded := a.nSizeShielded + UInt32.ofNat e.getTxSize }).addToBlock e, KMap.set mods e none)
    else addSorted ctx es (a.addToBlock e, KMap.set mods e none)

/-- The statistics of a descendant after `it` is in the block: those of the pool less `it` if the entry was
    not modified before, else `update_for_parent_inclusion`, which takes the fee without its delta. -/
def withoutParent (desc it : CTxMemPoolEntry) : Option PackageStats → PackageStats
  | none =>
    { nSizeWithAncestors := desc.withAncestors.nSizeWithAncestors - UInt64.ofNat it.getTxSize
      nModFeesWithAncestors := toInt64 (desc.withAncestors.nModFeesWithAncestors - it.getModifiedFee)
      nSigOpCountWithAncestors := desc.withAncestors.nSigOpCountWithAncestors - it.sigOpCount }
  | some e =>
    { nSizeWithAncestors := e.nSizeWithAncestors - UInt64.ofNat it.getTxSize
      nModFeesWithAncestors := toInt64 (e.nModFeesWithAncestors - it.nFee)
      nSigOpCountWithAncestors := e.nSigOpCountWithAncestors - it.sigOpCount }

/-- One descendant in `UpdatePackagesForAdded`. -/
def updateDescendant (alreadyAdded : List CTxMemPoolEntry) (it : CTxMemPoolEntry) (mods : ModifiedTxs)
    (desc : CTxMemPoolEntry) : ModifiedTxs :=
  if desc ∈ alreadyAdded then mods else KMap.set mods desc (some (withoutParent desc it (KMap.get mods desc)))

def updatePackagesForAdded (pool : CTxMemPool) (alreadyAdded : List CTxMemPoolEntry) (mods : ModifiedTxs) :
    ModifiedTxs :=
  alreadyAdded.foldl (fun mods it => (pool.descendants it).foldl (updateDescendant alreadyAdded it) mods) mods

/-! ## The loop -/

def skipMapTxEntry (s : SelectState) (it : CTxMemPoolEntry) : Bool :=
  (KMap.get s.mapModifiedTx it).isSome || decide (it ∈ s.assembler.inBlock) || decide (it ∈ s.failedTx)

def firstModified : Option (CTxMemPoolEntry × PackageStats) → (_ : CTxMemPoolEntry) × PackageStats →
    Option (CTxMemPoolEntry × PackageStats)
  | none, e => some (e.1, e.2)
  | some best, e => if compareByAncestorFee (e.1, e.2) best then some (e.1, e.2) else some best

/-- The first entry in the order of `mapModifiedTx`. -/
def bestModified (mods : ModifiedTxs) : Option (CTxMemPoolEntry × PackageStats) :=
  mods.entries.foldl firstModified none

/-- A package that cannot be added is put aside; an entry of the index has been passed already. -/
def setAside (s : SelectState) (fUsingModified : Bool) (iter : CTxMemPoolEntry) : SelectState :=
  if fUsingModified then
    { s with mapModifiedTx := KMap.set s.mapModifiedTx iter none, failedTx := iter :: s.failedTx }
  else s

/-- The ancestors of an entry that are not in the block, and the entry. -/
def unconfirmedPackage (pool : CTxMemPool) (a : BlockAssembler) (iter : CTxMemPoolEntry) : List CTxMemPoolEntry :=
  (a.onlyUnconfirmed (pool.ancestors iter)).orderedInsert (fun a b => compareIteratorByHash b a = false) iter

def considerPackage (ctx : AssemblerContext) (pool : CTxMemPool) (s : SelectState) (fUsingModified : Bool)
    (iter : CTxMemPoolEntry) (package : PackageStats) : Except Failure (LoopStep SelectState BlockAssembler) :=
  if iter ∈ s.assembler.inBlock then .error .assertion
  else if package.nModFeesWithAncestors < getFee ctx.minRelayTxFee package.nSizeWithAncestors.toNat then
    .ok (.done s.assembler)
  else if !s.assembler.testPackage ctx package.nSizeWithAncestors package.nSigOpCountWithAncestors then
    .ok (.next (setAside s fUsingModified iter))
  else
    let ancestors := unconfirmedPackage pool s.assembler iter
    if !testPackageFinality ctx ancestors then .ok (.next (setAside s fUsingModified iter))
    else
      let added := addSorted ctx (sortForBlock ancestors) (s.assembler, s.mapModifiedTx)
      .ok (.next { s with
        assembler := added.1
        mapModifiedTx := updatePackagesForAdded pool ancestors added.2 })

/-- One iteration of the loop of `addPackageTxs`. -/
def packageStep (ctx : AssemblerContext) (pool : CTxMemPool) (s : SelectState) :
    Except Failure (LoopStep SelectState BlockAssembler) :=
  match s.mi, bestModified s.mapModifiedTx with
  | [], none => .ok (.done s.assembler)
  | [], some modit => considerPackage ctx pool s true modit.1 modit.2
  | e :: mi, best =>
    if skipMapTxEntry s e then .ok (.next { s with mi := mi })
    else
      match best.filter fun modit => compareByAncestorFee modit (e, e.withAncestors) with
      | some modit => considerPackage ctx pool s true modit.1 modit.2
      | none => considerPackage ctx pool { s with mi := mi } false e e.withAncestors

/-- `addPackageTxs` for a block without transactions; `none` if the loop runs on after more iterations than a
    consistent pool needs. -/
def addPackageTxs (ctx : AssemblerContext) (pool : CTxMemPool) : Except Failure (Option BlockAssembler) :=
  whileLoop (packageStep ctx pool) ((pool.mapTx.length + 1) * (pool.mapTx.length + 1))
    ⟨resetBlock, pool.mapTx, ∅, []⟩

/-! ## What an iteration does -/

/-- The state with the package of an entry in the block, or with that part of it that comes before a refused entry. -/
def withPackage (ctx : AssemblerContext) (pool : CTxMemPool) (s : SelectState) (iter : CTxMemPoolEntry) : SelectState :=
  let ancestors := unconfirmedPackage pool s.assembler iter
  let added := addSorted ctx (sortForBlock ancestors) (s.assembler, s.mapModifiedTx)
  { s with assembler := added.1, mapModifiedTx := updatePackagesForAdded pool ancestors added.2 }

/-- The tests on a package before it is added. -/
structure PackagePasses (ctx : AssemblerContext) (pool : CTxMemPool) (s : SelectState) (iter : CTxMemPoolEntry)
    (st : PackageStats) : Prop where
  fits : s.assembler.testPackage ctx st.nSizeWithAncestors st.nSigOpCountWithAncestors = true
  final : testPackageFinality ctx (unconfirmedPackage pool s.assembler iter) = true

section Iteration

variable {ctx : AssemblerContext} {pool : CTxMemPool} {s : SelectState} {iter : CTxMemPoolEntry} {st : PackageStats}
  {fUsingModified : Bool}

theorem considerPackage_passes (hiter : iter ∉ s.assembler.inBlock)
    (hpaid : ¬ st.nModFeesWithAncestors < getFee ctx.minRelayTxFee st.nSizeWithAncestors.toNat)
    (h : PackagePasses ctx pool s iter st) :
    considerPackage ctx pool s fUsingModified iter st = .ok (.next (withPackage ctx pool s iter)) := by
  unfold considerPackage
  rw [if_neg hiter, if_neg hpaid, h.fits, Bool.not_true, if_neg Bool.false_ne_true]
  dsimp only
  rw [h.final, Bool.not_true, if_neg Bool.false_ne_true]
  rfl

theorem considerPackage_fails (hiter : iter ∉ s.assembler.inBlock)
    (hpaid : ¬ st.nModFeesWithAncestors < getFee ctx.minRelayTxFee st.nSizeWithAncestors.toNat)
    (h : ¬ PackagePasses ctx pool s iter st) :
    considerPackage ctx pool s fUsingModified iter st = .ok (.next (setAside s fUsingModified iter)) := by
  unfold considerPackage
  rw [if_neg hiter, if_neg hpaid]
  by_cases hfits : s.assembler.testPackage ctx st.nSizeWithAncestors st.nSigOpCountWithAncestors = true
  · have hfinal : testPackageFinality ctx (unconfirmedPackage pool s.assembler iter) = false :=
      Bool.eq_false_iff.mpr fun hfinal => h ⟨hfits, hfinal⟩
    rw [hfits, Bool.not_true, if_neg Bool.false_ne_true]
    dsimp only
    rw [hfinal, Bool.not_false, if_pos rfl]
  · rw [Bool.eq_false_iff.mpr hfits, Bool.not_false, if_pos rfl]

variable {e : CTxMemPoolEntry} {mi : List CTxMemPoolEntry}

theorem packageStep_skip (hmi : s.mi = e :: mi) (hskip : skipMapTxEntry s e = true) :
    packageStep ctx pool s = .ok (.next { s with mi := mi }) := by
  unfold packageStep
  rw [hmi]
  dsimp only
  rw [if_pos hskip]

theorem packageStep_modified {m : CTxMemPoolEntry × PackageStats} (hmi : s.mi = [])
    (hbest : bestModified s.mapModifiedTx = some m) :
    packageStep ctx pool s = considerPackage ctx pool s true m.1 m.2 := by
  unfold packageStep
  rw [hmi, hbest]

theorem packageStep_index (hmi : s.mi = e :: mi) (hskip : skipMapTxEntry s e = false)
    (hbest : (bestModified s.mapModifiedTx).filter (fun m => compareByAncestorFee m (e, e.withAncestors)) = none) :
    packageStep ctx pool s = considerPackage ctx pool { s with mi := mi } false e e.withAncestors := by
  unfold packageStep
  rw [hmi]
  dsimp only
  rw [hskip, if_neg Bool.false_ne_true, hbest]

variable {s' : SelectState}

theorem considerPackage_next (h : considerPackage ctx pool s fUsingModified iter st = .ok (.next s')) :
    (iter ∉ s.assembler.inBlock ∧ getFee ctx.minRelayTxFee st.nSizeWithAncestors.toNat ≤ st.nModFeesWithAncestors) ∧
      (PackagePasses ctx pool s iter st ∧ s' = withPackage ctx pool s iter ∨
        ¬ PackagePasses ctx pool s iter st ∧ s' = setAside s fUsingModified iter) := by
  by_cases hiter : iter ∈ s.assembler.inBlock
  · rw [considerPackage, if_pos hiter] at h
    cases h
  by_cases hpaid : st.nModFeesWithAncestors < getFee ctx.minRelayTxFee st.nSizeWithAncestors.toNat
  · rw [considerPackage, if_neg hiter, if_pos hpaid] at h
    cases h
  refine ⟨⟨hiter, not_lt.mp hpaid⟩, ?_⟩
  by_cases hpasses : PackagePasses ctx pool s iter st
  · rw [considerPackage_passes hiter hpaid hpasses] at h
    cases h
    exact .inl ⟨hpasses, rfl⟩
  · rw [considerPackage_fails hiter hpaid hpasses] at h
    cases h
    exact .inr ⟨hpasses, rfl⟩

/-- An iteration after which the loop goes on passes an entry of the index, or considers a modified entry or the
    next one of the index. -/
theorem packageStep_next (h : packageStep ctx pool s = .ok (.next s')) :
    (∃ e mi, s.mi = e :: mi ∧ s' = { s with mi := mi }) ∨
      (∃ m, bestModified s.mapModifiedTx = some m ∧ considerPackage ctx pool s true m.1 m.2 = .ok (.next s')) ∨
      ∃ e mi, s.mi = e :: mi ∧ skipMapTxEntry s e = false ∧
        considerPackage ctx pool { s with mi := mi } false e e.withAncestors = .ok (.next s') := by
  unfold packageStep at h
  split at h
  · cases h
  · rename_i m _ hbest
    exact .inr (.inl ⟨m, hbest, h⟩)
  · rename_i e mi hmi
    split at h
    · cases h
      exact .inl ⟨e, mi, hmi, rfl⟩
    · rename_i hskip
      split at h
      · rename_i m hm
        exact .inr (.inl ⟨m, (Option.filter_eq_some_iff.mp hm).1, h⟩)
      · exact .inr (.inr ⟨e, mi, hmi, Bool.eq_false_iff.mpr hskip, h⟩)

end Iteration

/-! ## What is left of a package -/

section Remaining

variable {pool : CTxMemPool} {w : CTxMemPoolEntry → Nat} {D : List CTxMemPoolEntry} {e it : CTxMemPoolEntry}

/-- The weight of an entry with its ancestors outside of a set. -/
def CTxMemPool.remaining (pool : CTxMemPool) (w : CTxMemPoolEntry → Nat) (D : List CTxMemPoolEntry)
    (e : CTxMemPoolEntry) : Nat :=
  (((pool.family e).filter fun a => decide (a ∉ D)).map w).sum

theorem remaining_le_family : pool.remaining w D e ≤ ((pool.family e).map w).sum :=
  (List.filter_sublist.map w).sum_le_sum fun _ _ => Nat.zero_le _

theorem le_remaining (he : e ∉ D) : w e ≤ pool.remaining w D e := by
  unfold CTxMemPool.remaining CTxMemPool.family
  rw [List.filter_cons_of_pos (by simpa using he), List.map_cons, List.sum_cons]
  omega

theorem remaining_anti {D' : List CTxMemPoolEntry} (h : ∀ a ∈ D, a ∈ D') :
    pool.remaining w D' e ≤ pool.remaining w D e := by
  refine List.Sublist.sum_le_sum (List.Sublist.map w ?_) fun _ _ => Nat.zero_le _
  refine List.monotone_filter_right _ fun a ha => ?_
  simp only [decide_eq_true_eq] at ha ⊢
  exact fun hD => ha (h a hD)

theorem filter_family_cons (hnodup : (pool.family e).Nodup) : ((pool.family e).filter fun a => decide (a ∉ it :: D)) =
      ((pool.family e).filter fun a => decide (a ∉ D)).erase it := by
  rw [(hnodup.filter _).erase_eq_filter, List.filter_filter]
  apply List.filter_congr
  intro a _
  by_cases ha : a = it <;> simp [ha]

theorem remaining_cons (hnodup : (pool.family e).Nodup) (hit : it ∈ pool.family e) (hD : it ∉ D) :
    pool.remaining w D e = w it + pool.remaining w (it :: D) e := by
  unfold CTxMemPool.remaining
  rw [filter_family_cons hnodup]
  exact (List.sum_map_erase w (List.mem_filter.mpr ⟨hit, by simpa using hD⟩)).symm

end Remaining

/-! ## Statistics that cover what is left -/

/-- The statistics of an entry count at least what is left of its package, and are in the range of numbers
    that can be added to those of a block. -/
structure Covers (pool : CTxMemPool) (D : List CTxMemPoolEntry) (e : CTxMemPoolEntry) (st : PackageStats) : Prop where
  size : pool.remaining CTxMemPoolEntry.getTxSize D e ≤ st.nSizeWithAncestors.toNat
  size_lt : st.nSizeWithAncestors.toNat < 9223372036854775808
  sigOps : pool.remaining (fun a => a.sigOpCount.toNat) D e ≤ st.nSigOpCountWithAncestors.toNat
  sigOps_lt : st.nSigOpCountWithAncestors.toNat < 2147483648

section Covers

variable {ctx : AssemblerContext} {pool : CTxMemPool} {D : List CTxMemPoolEntry} {e it : CTxMemPoolEntry}
  {st : PackageStats}

theorem CTxMemPool.Sound.covers (hpool : pool.Sound) (he : e ∈ pool.mapTx) (D : List CTxMemPoolEntry) :
    Covers pool D e e.withAncestors where
  size := (hpool.size e he).symm ▸ remaining_le_family
  size_lt := hpool.size_lt e he
  sigOps := (hpool.sigOps e he).symm ▸ remaining_le_family
  sigOps_lt := hpool.sigOps_lt e he

theorem Covers.mono {D' : List CTxMemPoolEntry} (h : Covers pool D e st) (hD : ∀ a ∈ D, a ∈ D') : Covers pool D' e st :=
  ⟨(remaining_anti hD).trans h.size, h.size_lt, (remaining_anti hD).trans h.sigOps, h.sigOps_lt⟩

theorem Covers.toNat_minus (h : Covers pool D e st) (hnodup : (pool.family e).Nodup) (hit : it ∈ pool.family e)
    (hD : it ∉ D) : (st.nSizeWithAncestors - UInt64.ofNat it.getTxSize).toNat =
        st.nSizeWithAncestors.toNat - it.getTxSize ∧
      (st.nSigOpCountWithAncestors - it.sigOpCount).toNat =
        st.nSigOpCountWithAncestors.toNat - it.sigOpCount.toNat := by
  have hsize := h.size
  have hsize_lt := h.size_lt
  have hsigOps := h.sigOps
  rw [remaining_cons hnodup hit hD] at hsize hsigOps
  have hofNat : (UInt64.ofNat it.getTxSize).toNat = it.getTxSize := by
    rw [UInt64.toNat_ofNat']
    omega
  rw [UInt64.toNat_sub_of_le _ _ (UInt64.le_iff_toNat_le.mpr (by omega)), hofNat]
  exact ⟨rfl, UInt32.toNat_sub_of_le _ _ (UInt32.le_iff_toNat_le.mpr (by omega))⟩

theorem Covers.minus (h : Covers pool D e st) (hnodup : (pool.family e).Nodup) (hit : it ∈ pool.family e)
    (hD : it ∉ D) (fees : Int) : Covers pool (it :: D) e
      ⟨st.nSizeWithAncestors - UInt64.ofNat it.getTxSize, fees, st.nSigOpCountWithAncestors - it.sigOpCount⟩ := by
  obtain ⟨hsize, hsize_lt, hsigOps, hsigOps_lt⟩ := id h
  obtain ⟨hsub, hsub'⟩ := h.toNat_minus hnodup hit hD
  rw [remaining_cons hnodup hit hD] at hsize hsigOps
  exact ⟨by dsimp only; omega, by dsimp only; omega, by dsimp only; omega, by dsimp only; omega⟩

theorem covers_withoutParent (hpool : pool.Sound) (he : e ∈ pool.mapTx) {o : Option PackageStats}
    (h : ∀ st, o = some st → Covers pool D e st) (hit : it ∈ pool.ancestors e) (hD : it ∉ D) :
    Covers pool (it :: D) e (withoutParent e it o) := by
  have hnodup := hpool.family_nodup e he
  have hmem : it ∈ pool.family e := List.mem_cons_of_mem _ hit
  cases o with
  | none => exact (hpool.covers he D).minus hnodup hmem hD _
  | some st => exact (h st rfl).minus hnodup hmem hD _

theorem Covers.testPackage {a : BlockAssembler} (h : Covers pool D e st)
    (hsize : a.nBlockSize.toNat ≤ MAX_BLOCK_SIZE_CURRENT) (hsigOps : a.nBlockSigOps.toNat ≤ MAX_BLOCK_SIGOPS_CURRENT) :
    a.testPackage ctx st.nSizeWithAncestors st.nSigOpCountWithAncestors = true ↔
      a.nBlockSize.toNat + st.nSizeWithAncestors.toNat < ctx.nBlockMaxSize ∧
        a.nBlockSigOps.toNat + st.nSigOpCountWithAncestors.toNat < MAX_BLOCK_SIGOPS_CURRENT := by
  have hsize_lt := h.size_lt
  have hsigOps_lt := h.sigOps_lt
  have hsum : (a.nBlockSize + st.nSizeWithAncestors).toNat = a.nBlockSize.toNat + st.nSizeWithAncestors.toNat := by
    rw [UInt64.toNat_add, Nat.mod_eq_of_lt]
    simp only [MAX_BLOCK_SIZE_CURRENT] at hsize
    omega
  have hsum' : (a.nBlockSigOps + st.nSigOpCountWithAncestors).toNat =
      a.nBlockSigOps.toNat + st.nSigOpCountWithAncestors.toNat := by
    rw [UInt32.toNat_add, Nat.mod_eq_of_lt]
    simp only [MAX_BLOCK_SIGOPS_CURRENT, MAX_BLOCK_SIZE_CURRENT] at hsigOps
    omega
  unfold BlockAssembler.testPackage
  split_ifs <;> simp <;> omega

end Covers

/-! ## The modified entries after a package -/

section Modified

variable {pool : CTxMemPool} {added : List CTxMemPoolEntry} {k : CTxMemPoolEntry}

/-- What an entry of the block does to the statistics of another one. -/
def parentIncluded (pool : CTxMemPool) (k : CTxMemPoolEntry) (o : Option PackageStats) (it : CTxMemPoolEntry) :
    Option PackageStats :=
  if it ∈ pool.ancestors k then some (withoutParent k it o) else o

theorem get_foldl_updateDescendant {it : CTxMemPoolEntry} : ∀ {descs : List CTxMemPoolEntry} {mods : ModifiedTxs},
    descs.Nodup → KMap.get (descs.foldl (updateDescendant added it) mods) k =
      if k ∈ descs ∧ k ∉ added then some (withoutParent k it (KMap.get mods k)) else KMap.get mods k := by
  intro descs
  induction descs with
  | nil => simp
  | cons desc descs ih =>
    intro mods hnodup
    obtain ⟨hdesc, hnodup'⟩ := List.nodup_cons.mp hnodup
    rw [List.foldl_cons, ih hnodup']
    by_cases hk : k = desc
    · subst hk
      by_cases hadded : k ∈ added
      · simp [updateDescendant, hadded]
      · simp [updateDescendant, hadded, hdesc]
    · have hget : KMap.get (updateDescendant added it mods desc) k = KMap.get mods k := by
        unfold updateDescendant
        split
        · rfl
        · exact KMap.get_set_ne mods _ hk
      simp only [hget, List.mem_cons, hk, false_or]

theorem get_updatePackagesForAdded_eq (hnodup : pool.mapTx.Nodup) (mods : ModifiedTxs) :
    KMap.get (updatePackagesForAdded pool added mods) k = added.foldl (fun o it =>
      if k ∈ pool.descendants it ∧ k ∉ added then some (withoutParent k it o) else o) (KMap.get mods k) := by
  have hloop : ∀ (l : List CTxMemPoolEntry) (mods : ModifiedTxs),
      KMap.get (l.foldl (fun mods it => (pool.descendants it).foldl (updateDescendant added it) mods) mods) k =
        l.foldl (fun o it => if k ∈ pool.descendants it ∧ k ∉ added then some (withoutParent k it o) else o)
          (KMap.get mods k) := by
    intro l
    induction l with
    | nil =>
      intro mods
      rfl
    | cons it l ih =>
      intro mods
      rw [List.foldl_cons, ih, List.foldl_cons]
      exact congrArg (l.foldl _) (get_foldl_updateDescendant (hnodup.filter _))
  exact hloop added mods

/-- The statistics of an entry outside of the package change with each of its ancestors in the package. -/
theorem get_updatePackagesForAdded (hnodup : pool.mapTx.Nodup) (hk : k ∈ pool.mapTx) (hadded : k ∉ added)
    (mods : ModifiedTxs) :
    KMap.get (updatePackagesForAdded pool added mods) k = added.foldl (parentIncluded pool k) (KMap.get mods k) := by
  rw [get_updatePackagesForAdded_eq hnodup]
  congr 1
  funext o it
  simp [CTxMemPool.descendants, hk, hadded, parentIncluded]

theorem get_updatePackagesForAdded_of_notMem (hnodup : pool.mapTx.Nodup) (hk : k ∉ pool.mapTx ∨ k ∈ added)
    (mods : ModifiedTxs) : KMap.get (updatePackagesForAdded pool added mods) k = KMap.get mods k := by
  rw [get_updatePackagesForAdded_eq hnodup]
  refine List.foldl_fixed' (fun it => if_neg ?_) _
  rintro ⟨hdesc, hnot⟩
  exact hk.elim (fun h => h (List.mem_of_mem_filter hdesc)) hnot

theorem foldl_parentIncluded_eq : ∀ {l : List CTxMemPoolEntry} (o : Option PackageStats),
    (∀ it ∈ l, it ∉ pool.ancestors k) → l.foldl (parentIncluded pool k) o = o := by
  intro l
  induction l with
  | nil =>
    intro o _
    rfl
  | cons it l ih =>
    intro o h
    rw [List.foldl_cons, parentIncluded, if_neg (h it List.mem_cons_self)]
    exact ih o fun it' hit' => h it' (List.mem_cons_of_mem _ hit')

variable {l D : List CTxMemPoolEntry} {o : Option PackageStats}

theorem foldl_parentIncluded_induct {P : List CTxMemPoolEntry → Option PackageStats → Prop} (hnodup : l.Nodup)
    (hl : ∀ it ∈ l, it ∉ D) (h : P D o)
    (hstep : ∀ it ∈ l, ∀ D o, it ∉ D → P D o → P (it :: D) (parentIncluded pool k o it)) :
    P (l.reverse ++ D) (l.foldl (parentIncluded pool k) o) := by
  induction l generalizing D o with
  | nil => exact h
  | cons it l ih =>
    obtain ⟨hit, hnodup'⟩ := List.nodup_cons.mp hnodup
    rw [List.reverse_cons, List.append_assoc]
    refine ih hnodup' (fun it' hit' hmem => ?_) (hstep it List.mem_cons_self D o (hl it List.mem_cons_self) h)
      fun it' hit' => hstep it' (List.mem_cons_of_mem _ hit')
    rcases List.mem_cons.mp hmem with rfl | hmem
    · exact hit hit'
    · exact hl it' (List.mem_cons_of_mem _ hit') hmem

theorem covers_foldl_parentIncluded (hpool : pool.Sound) (hk : k ∈ pool.mapTx) (hnodup : l.Nodup)
    (hl : ∀ it ∈ l, it ∉ D) (h : ∀ st, o = some st → Covers pool D k st) :
    ∀ st, l.foldl (parentIncluded pool k) o = some st → Covers pool (l.reverse ++ D) k st := by
  refine foldl_parentIncluded_induct (P := fun D o => ∀ st, o = some st → Covers pool D k st) hnodup hl h ?_
  intro it _ D o hD h st hst
  unfold parentIncluded at hst
  split at hst
  · rename_i hanc
    cases hst
    exact covers_withoutParent hpool hk h hanc hD
  · exact (h st hst).mono fun a ha => List.mem_cons_of_mem _ ha

end Modified

/-! ## Adding a package -/

def shieldedSize (l : List CTxMemPoolEntry) : Nat := ((l.filter CTxMemPoolEntry.isShielded).map CTxMemPoolEntry.getTxSize).sum

theorem shieldedSize_append (l l' : List CTxMemPoolEntry) : shieldedSize (l ++ l') = shieldedSize l + shieldedSize l' := by
  simp [shieldedSize]

theorem shieldedSize_cons (e : CTxMemPoolEntry) (l : List CTxMemPoolEntry) :
    shieldedSize (e :: l) = shieldedSize [e] + shieldedSize l := shieldedSize_append [e] l

theorem shieldedSize_perm {l l' : List CTxMemPoolEntry} (h : l.Perm l') : shieldedSize l = shieldedSize l' :=
  ((h.filter _).map _).sum_eq

/-- What `addSorted` does if no shielded transaction is in the way. -/
structure Added (a : BlockAssembler) (es : List CTxMemPoolEntry) (mods : ModifiedTxs)
    (r : BlockAssembler × ModifiedTxs) : Prop where
  inBlock : r.1.inBlock = a.inBlock ++ es
  nBlockSize : r.1.nBlockSize.toNat = a.nBlockSize.toNat + (es.map CTxMemPoolEntry.getTxSize).sum
  nBlockSigOps : r.1.nBlockSigOps.toNat = a.nBlockSigOps.toNat + (es.map fun e => e.sigOpCount.toNat).sum
  nSizeShielded : r.1.nSizeShielded.toNat = a.nSizeShielded.toNat + shieldedSize es
  mods : ∀ k, KMap.get r.2 k = if k ∈ es then none else KMap.get mods k

section AddSorted

variable {ctx : AssemblerContext}

variable {a a' : BlockAssembler} {e : CTxMemPoolEntry} {es : List CTxMemPoolEntry}

theorem Added.cons {mods : ModifiedTxs} {r : BlockAssembler × ModifiedTxs} (h : Added a' es (KMap.set mods e none) r)
    (hblock : a'.inBlock = a.inBlock ++ [e]) (hsize : a'.nBlockSize.toNat = a.nBlockSize.toNat + e.getTxSize)
    (hsigOps : a'.nBlockSigOps.toNat = a.nBlockSigOps.toNat + e.sigOpCount.toNat)
    (hshielded : a'.nSizeShielded.toNat = a.nSizeShielded.toNat + shieldedSize [e]) : Added a (e :: es) mods r where
  inBlock := by rw [h.inBlock, hblock, List.append_assoc, List.singleton_append]
  nBlockSize := by rw [h.nBlockSize, hsize, List.map_cons, List.sum_cons, Nat.add_assoc]
  nBlockSigOps := by rw [h.nBlockSigOps, hsigOps, List.map_cons, List.sum_cons, Nat.add_assoc]
  nSizeShielded := by
    rw [h.nSizeShielded, hshielded, shieldedSize_cons e es, Nat.add_assoc]
  mods k := by
    rw [h.mods k]
    by_cases hk : k = e
    · subst hk
      simp
    · simp only [KMap.get_set_ne mods none hk, List.mem_cons, hk, false_or]

/-- No entry is shielded, or the shielded ones may be added and have room. -/
def ShieldedRoom (ctx : AssemblerContext) (a : BlockAssembler) (es : List CTxMemPoolEntry) : Prop :=
  (∀ e ∈ es, e.isShielded = false) ∨
    ctx.fSaplingMaintenance = false ∧ a.nSizeShielded.toNat + shieldedSize es ≤ MAX_BLOCK_SHIELDED_TXES_SIZE

theorem ShieldedRoom.perm {es' : List CTxMemPoolEntry} (h : ShieldedRoom ctx a es) (hperm : es.Perm es') :
    ShieldedRoom ctx a es' := by
  rcases h with hnone | ⟨hmaintenance, hroom⟩
  · exact .inl fun e he => hnone e (hperm.mem_iff.mpr he)
  · exact .inr ⟨hmaintenance, shieldedSize_perm hperm ▸ hroom⟩

theorem ShieldedRoom.tail (h : ShieldedRoom ctx a (e :: es))
    (ha : a'.nSizeShielded.toNat = a.nSizeShielded.toNat + shieldedSize [e]) : ShieldedRoom ctx a' es := by
  rcases h with hnone | ⟨hmaintenance, hroom⟩
  · exact .inl fun e' he' => hnone e' (List.mem_cons_of_mem _ he')
  · rw [shieldedSize_cons] at hroom
    exact .inr ⟨hmaintenance, by omega⟩

theorem addSorted_added :
    ∀ {es : List CTxMemPoolEntry} {a : BlockAssembler} {mods : ModifiedTxs}, ShieldedRoom ctx a es →
      a.nBlockSize.toNat + (es.map CTxMemPoolEntry.getTxSize).sum ≤ MAX_BLOCK_SIZE_CURRENT →
      a.nBlockSigOps.toNat + (es.map fun e => e.sigOpCount.toNat).sum ≤ MAX_BLOCK_SIGOPS_CURRENT →
      Added a es mods (addSorted ctx es (a, mods)) := by
  intro es
  induction es with
  | nil =>
    intro a mods _ _ _
    exact ⟨by simp [addSorted], by simp [addSorted], by simp [addSorted], by simp [addSorted, shieldedSize],
      by simp [addSorted]⟩
  | cons e es ih =>
    intro a mods hshielded hsize hsigOps
    rw [List.map_cons, List.sum_cons] at hsize hsigOps
    simp only [MAX_BLOCK_SIGOPS_CURRENT, MAX_BLOCK_SIZE_CURRENT] at *
    have hsum : (a.nBlockSize + UInt64.ofNat e.getTxSize).toNat = a.nBlockSize.toNat + e.getTxSize := by
      rw [UInt64.toNat_add, UInt64.toNat_ofNat']
      omega
    have hsum' : (a.nBlockSigOps + e.sigOpCount).toNat = a.nBlockSigOps.toNat + e.sigOpCount.toNat := by
      rw [UInt32.toNat_add]
      omega
    obtain ⟨a', hstep, hblock, hsize', hsigOps', hshielded'⟩ : ∃ a' : BlockAssembler,
        addSorted ctx (e :: es) (a, mods) = addSorted ctx es (a', KMap.set mods e none) ∧
        a'.inBlock = a.inBlock ++ [e] ∧ a'.nBlockSize.toNat = a.nBlockSize.toNat + e.getTxSize ∧
        a'.nBlockSigOps.toNat = a.nBlockSigOps.toNat + e.sigOpCount.toNat ∧
        a'.nSizeShielded.toNat = a.nSizeShielded.toNat + shieldedSize [e] := by
      by_cases hshield : e.isShielded = true
      · have hone : shieldedSize [e] = e.getTxSize := by simp [shieldedSize, hshield]
        obtain ⟨hmaintenance, hfits⟩ := hshielded.resolve_left fun hnone => by
          rw [hnone e List.mem_cons_self] at hshield
          cases hshield
        rw [shieldedSize_cons, MAX_BLOCK_SHIELDED_TXES_SIZE] at hfits
        have hsum'' : (a.nSizeShielded + UInt32.ofNat e.getTxSize).toNat = a.nSizeShielded.toNat + e.getTxSize := by
          rw [UInt32.toNat_add, UInt32.toNat_ofNat']
          omega
        have hroom : ¬ (ctx.fSaplingMaintenance = true ∨
            a.nSizeShielded.toNat + e.getTxSize > MAX_BLOCK_SHIELDED_TXES_SIZE) := by
          rw [hmaintenance, MAX_BLOCK_SHIELDED_TXES_SIZE]
          simp
          omega
        exact ⟨_, by rw [addSorted, if_pos hshield, if_neg hroom], rfl, hsum, hsum', by rw [hone]; exact hsum''⟩
      · have hone : shieldedSize [e] = 0 := by simp [shieldedSize, hshield]
        exact ⟨_, by rw [addSorted, if_neg hshield], rfl, hsum, hsum', by rw [hone]; rfl⟩
    rw [hstep]
    exact Added.cons (ih (hshielded.tail hshielded') (by omega) (by omega)) hblock hsize' hsigOps' hshielded'

end AddSorted

/-! ## The invariant -/

structure Selecting (pool : CTxMemPool) (s : SelectState) : Prop where
  nodup : s.assembler.inBlock.Nodup
  mem : ∀ e ∈ s.assembler.inBlock, e ∈ pool.mapTx
  /-- The block has the ancestors of its entries. -/
  closed : ∀ e ∈ s.assembler.inBlock, ∀ a ∈ pool.ancestors e, a ∈ s.assembler.inBlock
  mi : s.mi <:+ pool.mapTx
  modified : ∀ e st, KMap.get s.mapModifiedTx e = some st →
    (e ∈ pool.mapTx ∧ e ∉ s.assembler.inBlock) ∧ pool.ancestors e ≠ [] ∧ Covers pool s.assembler.inBlock e st
  failed : ∀ e ∈ s.failedTx, pool.ancestors e ≠ []
  size : s.assembler.nBlockSize.toNat ≤ MAX_BLOCK_SIZE_CURRENT
  sigOps : s.assembler.nBlockSigOps.toNat ≤ MAX_BLOCK_SIGOPS_CURRENT
  shielded : s.assembler.nSizeShielded.toNat = shieldedSize s.assembler.inBlock

/-- The number of modified entries. -/
def modifiedCount (pool : CTxMemPool) (mods : ModifiedTxs) : Nat :=
  (pool.mapTx.toFinset.filter fun e => (KMap.get mods e).isSome).card

/-- Entries that are not in the block weigh more than all that can be modified. -/
def selectMeasure (pool : CTxMemPool) (s : SelectState) : Nat :=
  (pool.mapTx.length - s.assembler.inBlock.length) * (pool.mapTx.length + 1) + s.mi.length +
    modifiedCount pool s.mapModifiedTx

section Package

variable {ctx : AssemblerContext} {pool : CTxMemPool} {s : SelectState} {iter : CTxMemPoolEntry} {st : PackageStats}

theorem modifiedCount_le (mods : ModifiedTxs) : modifiedCount pool mods ≤ pool.mapTx.length :=
  (Finset.card_filter_le _ _).trans (List.toFinset_card_le _)

variable {mods : ModifiedTxs}

theorem modifiedCount_erase (hmem : iter ∈ pool.mapTx) (hget : KMap.get mods iter = some st) :
    modifiedCount pool (KMap.set mods iter none) < modifiedCount pool mods := by
  apply Finset.card_lt_card
  rw [Finset.ssubset_iff_of_subset]
  · refine ⟨iter, ?_, ?_⟩
    · simp [hmem, hget]
    · simp
  · intro e he
    rw [Finset.mem_filter] at he ⊢
    refine ⟨he.1, ?_⟩
    by_cases heq : e = iter
    · simp [heq] at he
    · simpa [KMap.get_set_ne mods none heq] using he.2

theorem unconfirmedPackage_perm (hiter : iter ∉ s.assembler.inBlock) : (unconfirmedPackage pool s.assembler iter).Perm
      ((pool.family iter).filter fun a => decide (a ∉ s.assembler.inBlock)) := by
  rw [CTxMemPool.family, List.filter_cons_of_pos (by simpa using hiter)]
  exact List.perm_orderedInsert _ _ _

variable {e : CTxMemPoolEntry}

theorem mem_unconfirmedPackage (hiter : iter ∉ s.assembler.inBlock) :
    e ∈ unconfirmedPackage pool s.assembler iter ↔ e ∈ pool.family iter ∧ e ∉ s.assembler.inBlock := by
  rw [(unconfirmedPackage_perm hiter).mem_iff, List.mem_filter, decide_eq_true_eq]

theorem mem_of_mem_family (hpool : pool.Sound) (hmem : iter ∈ pool.mapTx) (he : e ∈ pool.family iter) :
    e ∈ pool.mapTx := by
  rcases List.mem_cons.mp he with rfl | he
  · exact hmem
  · exact hpool.mem iter hmem e he

variable {fUsingModified : Bool}

theorem Selecting.setAside (h : Selecting pool s)
    (hmodified : fUsingModified = true → KMap.get s.mapModifiedTx iter = some st) :
    Selecting pool (setAside s fUsingModified iter) ∧
      selectMeasure pool (KrovaCoin.setAside s fUsingModified iter) + fUsingModified.toNat ≤ selectMeasure pool s := by
  cases fUsingModified with
  | false => exact ⟨h, Nat.le_refl _⟩
  | true =>
    have hget := hmodified rfl
    obtain ⟨⟨hmem, -⟩, hanc, -⟩ := h.modified iter st hget
    constructor
    · refine { h with modified := ?_, failed := ?_ }
      · intro e st' hst'
        by_cases heq : e = iter
        · rw [heq] at hst'
          simp [KrovaCoin.setAside] at hst'
        · apply h.modified e st'
          rw [← KMap.get_set_ne s.mapModifiedTx none heq]
          exact hst'
      · intro e he
        rcases List.mem_cons.mp he with rfl | he
        · exact hanc
        · exact h.failed e he
    · have := modifiedCount_erase hmem hget
      simp only [KrovaCoin.setAside, if_true, selectMeasure, Bool.toNat_true]
      omega

theorem Selecting.modified_added (hpool : pool.Sound) (h : Selecting pool s) {package : List CTxMemPoolEntry}
    (hnodup : package.Nodup) (hpackage : ∀ e ∈ package, e ∉ s.assembler.inBlock)
    (hmods : ∀ e, KMap.get mods e = if e ∈ package then none else KMap.get s.mapModifiedTx e)
    (hst : KMap.get (updatePackagesForAdded pool package mods) e = some st) :
    (e ∈ pool.mapTx ∧ e ∉ s.assembler.inBlock ∧ e ∉ package) ∧ pool.ancestors e ≠ [] ∧
      Covers pool (package.reverse ++ s.assembler.inBlock) e st := by
  -- an entry of the package, or none of the pool, is not modified
  have hmem : e ∈ pool.mapTx ∧ e ∉ package := by
    by_contra hnot
    rw [not_and_or, not_not] at hnot
    rw [get_updatePackagesForAdded_of_notMem hpool.nodup hnot, hmods] at hst
    rcases hnot with hnot | hin
    · split at hst
      · cases hst
      · exact hnot (h.modified e st hst).1.1
    · rw [if_pos hin] at hst
      cases hst
  obtain ⟨hmem, hout⟩ := hmem
  rw [get_updatePackagesForAdded hpool.nodup hmem hout, hmods, if_neg hout] at hst
  have hblock : e ∉ s.assembler.inBlock := by
    intro hin
    -- the ancestors of an entry of the block are there already
    have hanc : ∀ it ∈ package, it ∉ pool.ancestors e := fun it hit ha => hpackage it hit (h.closed e hin it ha)
    rw [foldl_parentIncluded_eq _ hanc] at hst
    exact (h.modified e st hst).1.2 hin
  refine ⟨⟨hmem, hblock, hout⟩, ?_, ?_⟩
  · intro hnil
    have hanc : ∀ it ∈ package, it ∉ pool.ancestors e := by simp [hnil]
    rw [foldl_parentIncluded_eq _ hanc] at hst
    exact (h.modified e st hst).2.1 hnil
  · exact covers_foldl_parentIncluded hpool hmem hnodup hpackage (fun st' hst' => (h.modified e st' hst').2.2) st hst

/-- Entries were added to a block. -/
structure Grown (a a' : BlockAssembler) : Prop where
  kept : ∀ e ∈ a.inBlock, e ∈ a'.inBlock
  size : a.nBlockSize.toNat ≤ a'.nBlockSize.toNat
  sigOps : a.nBlockSigOps.toNat ≤ a'.nBlockSigOps.toNat

structure PackageAdded (pool : CTxMemPool) (s s' : SelectState) (iter : CTxMemPoolEntry) : Prop where
  selecting : Selecting pool s'
  mi : s'.mi = s.mi
  added : iter ∈ s'.assembler.inBlock
  grown : Grown s.assembler s'.assembler
  measure : selectMeasure pool s' < selectMeasure pool s

theorem sortForBlock_perm (package : List CTxMemPoolEntry) : (sortForBlock package).Perm package :=
  List.perm_insertionSort _ _

/-- The block with the package of an entry has entries of the pool, and each only once. -/
theorem Selecting.block_subperm (hpool : pool.Sound) (h : Selecting pool s) (hmem : iter ∈ pool.mapTx)
    (hiter : iter ∉ s.assembler.inBlock) :
    (s.assembler.inBlock ++ unconfirmedPackage pool s.assembler iter).Nodup ∧
      (s.assembler.inBlock ++ unconfirmedPackage pool s.assembler iter).Subperm pool.mapTx := by
  have hpackage : (unconfirmedPackage pool s.assembler iter).Nodup :=
    (unconfirmedPackage_perm hiter).nodup_iff.mpr ((hpool.family_nodup iter hmem).filter _)
  have hnodup : (s.assembler.inBlock ++ unconfirmedPackage pool s.assembler iter).Nodup := by
    refine List.nodup_append.mpr ⟨h.nodup, hpackage, ?_⟩
    rintro e he e' he' rfl
    exact ((mem_unconfirmedPackage hiter).mp he').2 he
  refine ⟨hnodup, List.subperm_of_subset hnodup fun e he => ?_⟩
  rcases List.mem_append.mp he with he | he
  · exact h.mem e he
  · exact mem_of_mem_family hpool hmem ((mem_unconfirmedPackage hiter).mp he).1

theorem Selecting.shieldedRoom (hpool : pool.Sound) (hmaintenance : ctx.fSaplingMaintenance = false)
    (hroom : shieldedSize pool.mapTx ≤ MAX_BLOCK_SHIELDED_TXES_SIZE) (h : Selecting pool s)
    (hmem : iter ∈ pool.mapTx) (hiter : iter ∉ s.assembler.inBlock) :
    ShieldedRoom ctx s.assembler (unconfirmedPackage pool s.assembler iter) := by
  refine .inr ⟨hmaintenance, ?_⟩
  rw [h.shielded, ← shieldedSize_append]
  obtain ⟨l, hl, hsub⟩ := (h.block_subperm hpool hmem hiter).2
  rw [← shieldedSize_perm hl]
  exact (((hsub.filter _).map _).sum_le_sum fun _ _ => Nat.zero_le _).trans hroom

theorem Selecting.added (h : Selecting pool s)
    (hroom : ShieldedRoom ctx s.assembler (unconfirmedPackage pool s.assembler iter))
    (hiter : iter ∉ s.assembler.inBlock) (hcovers : Covers pool s.assembler.inBlock iter st)
    (hfits : s.assembler.testPackage ctx st.nSizeWithAncestors st.nSigOpCountWithAncestors = true) :
    Added s.assembler (sortForBlock (unconfirmedPackage pool s.assembler iter)) s.mapModifiedTx
      (addSorted ctx (sortForBlock (unconfirmedPackage pool s.assembler iter)) (s.assembler, s.mapModifiedTx)) := by
  have hperm := (sortForBlock_perm _).trans (@unconfirmedPackage_perm pool s iter hiter)
  obtain ⟨hsize, hsigOps⟩ := (hcovers.testPackage h.size h.sigOps).mp hfits
  have hsumSize := ((hperm.map CTxMemPoolEntry.getTxSize).sum_eq).trans_le hcovers.size
  have hsumSigOps := ((hperm.map fun e => e.sigOpCount.toNat).sum_eq).trans_le hcovers.sigOps
  have hmax := ctx.nBlockMaxSize_le
  exact addSorted_added (hroom.perm (sortForBlock_perm _).symm) (by omega) (by omega)

/-- **A package that fits**: the invariant is kept, and the measure falls. -/
theorem Selecting.addPackage (hpool : pool.Sound) (h : Selecting pool s)
    (hroom : ShieldedRoom ctx s.assembler (unconfirmedPackage pool s.assembler iter))
    (hmem : iter ∈ pool.mapTx) (hiter : iter ∉ s.assembler.inBlock) (hcovers : Covers pool s.assembler.inBlock iter st)
    (hfits : s.assembler.testPackage ctx st.nSizeWithAncestors st.nSigOpCountWithAncestors = true) :
    PackageAdded pool s (withPackage ctx pool s iter) iter := by
  have hadded := h.added hroom hiter hcovers hfits
  obtain ⟨hnodup, hsubperm⟩ := h.block_subperm hpool hmem hiter
  obtain ⟨hsizeFits, hsigOpsFits⟩ := (hcovers.testPackage h.size h.sigOps).mp hfits
  have hsumSize := hcovers.size
  have hsumSigOps := hcovers.sigOps
  have hmax := ctx.nBlockMaxSize_le
  unfold withPackage
  dsimp only
  generalize hpackage : unconfirmedPackage pool s.assembler iter = package at *
  generalize addSorted ctx (sortForBlock package) (s.assembler, s.mapModifiedTx) = added at *
  have hmemPackage : ∀ {e}, e ∈ package ↔ e ∈ pool.family iter ∧ e ∉ s.assembler.inBlock := by
    intro e
    rw [← hpackage]
    exact mem_unconfirmedPackage hiter
  have hperm : (sortForBlock package).Perm package := sortForBlock_perm package
  have hblock : added.1.inBlock.Perm (s.assembler.inBlock ++ package) := by
    rw [hadded.inBlock]
    exact hperm.append_left _
  have hmemBlock : ∀ {e}, e ∈ added.1.inBlock ↔ e ∈ s.assembler.inBlock ∨ e ∈ package := by
    intro e
    rw [hblock.mem_iff, List.mem_append]
  have hsize := hadded.nBlockSize
  have hsigOps := hadded.nBlockSigOps
  have hfilter := @unconfirmedPackage_perm pool s iter hiter
  rw [hpackage] at hfilter
  rw [((hperm.trans hfilter).map _).sum_eq] at hsize hsigOps
  change added.1.nBlockSize.toNat = _ + pool.remaining CTxMemPoolEntry.getTxSize s.assembler.inBlock iter at hsize
  change added.1.nBlockSigOps.toNat = _ + pool.remaining (fun e => e.sigOpCount.toNat) s.assembler.inBlock iter at hsigOps
  have hmods : ∀ e, KMap.get added.2 e = if e ∈ package then none else KMap.get s.mapModifiedTx e := by
    intro e
    rw [hadded.mods e]
    simp only [hperm.mem_iff]
  have hselected : iter ∈ package := hmemPackage.mpr ⟨List.mem_cons_self, hiter⟩
  refine ⟨⟨?_, ?_, ?_, h.mi, ?_, h.failed, ?_, ?_, ?_⟩, rfl, ?_, ⟨?_, ?_, ?_⟩, ?_⟩
  · exact hblock.nodup_iff.mpr hnodup
  · exact fun e he => hsubperm.subset (hblock.mem_iff.mp he)
  · intro e he a ha
    rw [hmemBlock] at he ⊢
    rcases he with he | he
    · exact .inl (h.closed e he a ha)
    · have hfamily : a ∈ pool.family iter := by
        rcases List.mem_cons.mp (hmemPackage.mp he).1 with rfl | hanc
        · exact List.mem_cons_of_mem _ ha
        · exact List.mem_cons_of_mem _ (hpool.trans iter hmem e hanc a ha)
      by_cases hin : a ∈ s.assembler.inBlock
      · exact .inl hin
      · exact .inr (hmemPackage.mpr ⟨hfamily, hin⟩)
  · intro e st' hst'
    obtain ⟨⟨he, hout, hout'⟩, hanc, hcovers'⟩ := h.modified_added hpool (List.nodup_append.mp hnodup).2.1
      (fun e he => (hmemPackage.mp he).2) hmods hst'
    refine ⟨⟨he, ?_⟩, hanc, hcovers'.mono ?_⟩
    · rw [hmemBlock]
      exact fun hor => hor.elim hout hout'
    · intro a ha
      rw [hmemBlock]
      rcases List.mem_append.mp ha with ha | ha
      · exact .inr (List.mem_reverse.mp ha)
      · exact .inl ha
  · show added.1.nBlockSize.toNat ≤ _
    omega
  · show added.1.nBlockSigOps.toNat ≤ _
    omega
  · rw [hadded.nSizeShielded, hadded.inBlock, shieldedSize_append, h.shielded]
  · exact hmemBlock.mpr (.inr hselected)
  · exact fun e he => hmemBlock.mpr (.inl he)
  · show _ ≤ added.1.nBlockSize.toNat
    omega
  · show _ ≤ added.1.nBlockSigOps.toNat
    omega
  · have hlen := hsubperm.length_le
    have hpos := List.length_pos_of_mem hselected
    have hcount := @modifiedCount_le pool (updatePackagesForAdded pool package added.2)
    unfold selectMeasure
    dsimp only
    rw [hblock.length_eq, List.length_append]
    rw [List.length_append] at hlen
    have hstep : (pool.mapTx.length - (s.assembler.inBlock.length + package.length) + 1) *
        (pool.mapTx.length + 1) ≤ (pool.mapTx.length - s.assembler.inBlock.length) * (pool.mapTx.length + 1) :=
      Nat.mul_le_mul_right _ (by omega)
    rw [Nat.add_mul, Nat.one_mul] at hstep
    omega

/-- **One package that pays**: it is added or put aside, and the invariant is kept. -/
theorem considerPackage_paid (hpool : pool.Sound) (h : Selecting pool s)
    (hroom : ShieldedRoom ctx s.assembler (unconfirmedPackage pool s.assembler iter))
    (hmodified : fUsingModified = true → KMap.get s.mapModifiedTx iter = some st) (hmem : iter ∈ pool.mapTx)
    (hiter : iter ∉ s.assembler.inBlock) (hcovers : Covers pool s.assembler.inBlock iter st)
    (hpaid : ¬ st.nModFeesWithAncestors < getFee ctx.minRelayTxFee st.nSizeWithAncestors.toNat) :
    ∃ s', considerPackage ctx pool s fUsingModified iter st = .ok (.next s') ∧ Selecting pool s' ∧ s'.mi = s.mi ∧
      Grown s.assembler s'.assembler ∧ selectMeasure pool s' + fUsingModified.toNat ≤ selectMeasure pool s ∧
      (iter ∈ s'.assembler.inBlock ∨
        s.assembler.testPackage ctx st.nSizeWithAncestors st.nSigOpCountWithAncestors = false ∨
        testPackageFinality ctx (unconfirmedPackage pool s.assembler iter) = false) := by
  obtain ⟨haside, hmeasure⟩ := h.setAside hmodified
  have hmi : (setAside s fUsingModified iter).mi = s.mi := by
    cases fUsingModified <;> rfl
  have hassembler : (setAside s fUsingModified iter).assembler = s.assembler := by
    cases fUsingModified <;> rfl
  have hgrown : Grown s.assembler (setAside s fUsingModified iter).assembler := by
    rw [hassembler]
    exact ⟨fun _ he => he, Nat.le_refl _, Nat.le_refl _⟩
  by_cases hpasses : PackagePasses ctx pool s iter st
  · have hadded := h.addPackage hpool hroom hmem hiter hcovers hpasses.fits
    have hlt := hadded.measure
    have hone := Bool.toNat_le fUsingModified
    exact ⟨_, considerPackage_passes hiter hpaid hpasses, hadded.selecting, hadded.mi, hadded.grown, by omega,
      .inl hadded.added⟩
  · refine ⟨_, considerPackage_fails hiter hpaid hpasses, haside, hmi, hgrown, hmeasure, .inr ?_⟩
    by_cases hfits : s.assembler.testPackage ctx st.nSizeWithAncestors st.nSigOpCountWithAncestors = true
    · exact .inr (Bool.eq_false_iff.mpr fun hfinal => hpasses ⟨hfits, hfinal⟩)
    · exact .inl (Bool.eq_false_iff.mpr hfits)

theorem considerPackage_unpaid (hiter : iter ∉ s.assembler.inBlock)
    (hunpaid : st.nModFeesWithAncestors < getFee ctx.minRelayTxFee st.nSizeWithAncestors.toNat) :
    considerPackage ctx pool s fUsingModified iter st = .ok (.done s.assembler) := by
  rw [considerPackage, if_neg hiter, if_pos hunpaid]

theorem Selecting.tail (h : Selecting pool s) {mi : List CTxMemPoolEntry} (hmi : s.mi = e :: mi) :
    Selecting pool { s with mi := mi } ∧ selectMeasure pool { s with mi := mi } < selectMeasure pool s := by
  refine ⟨{ h with mi := (List.suffix_cons e mi).trans (hmi ▸ h.mi) }, ?_⟩
  unfold selectMeasure
  rw [hmi, List.length_cons]
  dsimp only
  omega

theorem selecting_init (pool : CTxMemPool) : Selecting pool ⟨resetBlock, pool.mapTx, ∅, []⟩ where
  nodup := List.nodup_nil
  mem := by simp [resetBlock]
  closed := by simp [resetBlock]
  mi := List.suffix_refl _
  modified := by simp
  failed := by simp
  size := show resetBlock.nBlockSize.toNat ≤ MAX_BLOCK_SIZE_CURRENT by decide
  sigOps := show resetBlock.nBlockSigOps.toNat ≤ MAX_BLOCK_SIGOPS_CURRENT by decide
  shielded := rfl

theorem selectMeasure_init (pool : CTxMemPool) :
    selectMeasure pool ⟨resetBlock, pool.mapTx, ∅, []⟩ < (pool.mapTx.length + 1) * (pool.mapTx.length + 1) := by
  have hcount : modifiedCount pool ∅ = 0 := by simp [modifiedCount]
  unfold selectMeasure
  dsimp only
  rw [hcount, resetBlock, List.length_nil, Nat.sub_zero, Nat.add_mul, Nat.one_mul]
  omega

theorem bestModified_mem {m : CTxMemPoolEntry × PackageStats} (h : bestModified mods = some m) :
    KMap.get mods m.1 = some m.2 := by
  have hloop : ∀ (l : List ((_ : CTxMemPoolEntry) × PackageStats)) (acc : Option (CTxMemPoolEntry × PackageStats)),
      l.foldl firstModified acc = some m → acc = some m ∨ ⟨m.1, m.2⟩ ∈ l := by
    intro l
    induction l with
    | nil =>
      intro acc hacc
      exact .inl hacc
    | cons e l ih =>
      intro acc hacc
      rcases ih _ hacc with hnew | hmem
      · unfold firstModified at hnew
        split at hnew
        · cases hnew
          exact .inr List.mem_cons_self
        · split at hnew
          · cases hnew
            exact .inr List.mem_cons_self
          · exact .inl hnew
      · exact .inr (List.mem_cons_of_mem _ hmem)
  rcases hloop _ _ h with hnone | hmem
  · cases hnone
  · exact AList.mem_lookup_iff.mpr hmem

end Package

/-! ## The run -/

/-- An entry is in the block, or does not fit any more. -/
def Selected (ctx : AssemblerContext) (e : CTxMemPoolEntry) (a : BlockAssembler) : Prop :=
  e ∈ a.inBlock ∨
    a.testPackage ctx e.withAncestors.nSizeWithAncestors e.withAncestors.nSigOpCountWithAncestors = false

/-- An entry that waits for its turn: it has no ancestors, it is final, it pays for its size, and it outbids
    every package that does not. -/
structure Outbids (ctx : AssemblerContext) (pool : CTxMemPool) (e : CTxMemPoolEntry) : Prop where
  mem : e ∈ pool.mapTx
  alone : pool.ancestors e = []
  final : isFinalTx ctx.adjustedTime e.tx ctx.nHeight 0 = true
  paid : getFee ctx.minRelayTxFee e.withAncestors.nSizeWithAncestors.toNat ≤ e.withAncestors.nModFeesWithAncestors
  outbids : ∀ st : PackageStats, 60 ≤ st.nSizeWithAncestors.toNat →
    st.nModFeesWithAncestors < getFee ctx.minRelayTxFee st.nSizeWithAncestors.toNat → st.WellBelow e.withAncestors

section Run

variable {ctx : AssemblerContext} {pool : CTxMemPool} {s : SelectState} {e : CTxMemPoolEntry}

/-- An iteration goes on with the invariant and a measure below the bound, or returns a block with the entry or
    without room for it. -/
def StepOk (ctx : AssemblerContext) (pool : CTxMemPool) (e : CTxMemPoolEntry) (bound : Nat)
    (x : Except Failure (LoopStep SelectState BlockAssembler)) : Prop :=
  (∃ s', x = .ok (.next s') ∧ (Selecting pool s' ∧ (e ∈ s'.mi ∨ Selected ctx e s'.assembler)) ∧
      selectMeasure pool s' < bound) ∨
    ∃ r, x = .ok (.done r) ∧ Selected ctx e r

theorem Selected.grown {a a' : BlockAssembler} (hpool : pool.Sound) (he : e ∈ pool.mapTx) (h : Selected ctx e a)
    (hgrown : Grown a a') (hsize : a'.nBlockSize.toNat ≤ MAX_BLOCK_SIZE_CURRENT)
    (hsigOps : a'.nBlockSigOps.toNat ≤ MAX_BLOCK_SIGOPS_CURRENT) : Selected ctx e a' := by
  rcases h with hin | hfull
  · exact .inl (hgrown.kept e hin)
  · right
    have hcovers := hpool.covers he []
    have hle := hgrown.size
    have hle' := hgrown.sigOps
    by_contra hfits
    rw [Bool.not_eq_false, hcovers.testPackage hsize hsigOps] at hfits
    have hfits' : a.testPackage ctx e.withAncestors.nSizeWithAncestors e.withAncestors.nSigOpCountWithAncestors =
        true := (hcovers.testPackage (by omega) (by omega)).mpr ⟨by omega, by omega⟩
    rw [hfull] at hfits'
    cases hfits'

theorem size_pos (hpool : pool.Sound) (he : e ∈ pool.mapTx) : 60 ≤ e.withAncestors.nSizeWithAncestors.toNat := by
  rw [hpool.size e he, CTxMemPool.family, List.map_cons, List.sum_cons]
  have := hpool.size_ge e he
  omega

variable {D : List CTxMemPoolEntry}

theorem Covers.size_ge {st : PackageStats} (hpool : pool.Sound) (he : e ∈ pool.mapTx) (hD : e ∉ D)
    (h : Covers pool D e st) : 60 ≤ st.nSizeWithAncestors.toNat :=
  (hpool.size_ge e he).trans ((le_remaining hD).trans h.size)

variable {e' : CTxMemPoolEntry} {mi : List CTxMemPoolEntry}

theorem rank_of_mem_tail (hpool : pool.Sound) (hmi : e' :: mi <:+ pool.mapTx) (he : e ∈ mi) :
    crossProduct e.withAncestors.nModFeesWithAncestors e'.withAncestors.nSizeWithAncestors.toNat ≤
      crossProduct e'.withAncestors.nModFeesWithAncestors e.withAncestors.nSizeWithAncestors.toNat := by
  have hsorted := (hpool.sorted.sublist hmi.sublist)
  rw [List.pairwise_cons] at hsorted
  exact @crossProduct_le_of_not_compare (e', e'.withAncestors) (e, e.withAncestors) (hsorted.1 e he)

variable {m : CTxMemPoolEntry × PackageStats}

/-- A package that is ranked above the first entry of the index is not well below any of them. -/
theorem Covers.not_wellBelow (h : Covers pool D m.1 m.2) (hpool : pool.Sound) (hmem : m.1 ∈ pool.mapTx) (hD : m.1 ∉ D)
    (hmi : e' :: mi <:+ pool.mapTx) (hbetter : compareByAncestorFee m (e', e'.withAncestors) = true)
    (he : e = e' ∨ e ∈ mi) : ¬ m.2.WellBelow e.withAncestors := by
  have hpos := h.size_ge hpool hmem hD
  have hpos' := size_pos hpool (hmi.subset List.mem_cons_self)
  have hrank := @crossProduct_le_of_compare m (e', e'.withAncestors) hbetter
  dsimp only at hrank
  rcases he with rfl | he
  · exact KrovaCoin.not_wellBelow (by omega) (by omega) hrank
  · have hpos'' := size_pos hpool (hmi.subset (List.mem_cons_of_mem _ he))
    exact not_wellBelow_trans (by omega) (by omega) (by omega) hrank (rank_of_mem_tail hpool hmi he)

theorem Selecting.selected_of_skip (h : Selecting pool s) (hout : Outbids ctx pool e)
    (hskip : skipMapTxEntry s e = true) : Selected ctx e s.assembler := by
  simp only [skipMapTxEntry, Bool.or_eq_true, decide_eq_true_eq] at hskip
  rcases hskip with (hmod | hblock) | hfailed
  · obtain ⟨st, hst⟩ := Option.isSome_iff_exists.mp hmod
    exact absurd hout.alone (h.modified e st hst).2.1
  · exact .inl hblock
  · exact absurd hout.alone (h.failed e hfailed)

variable (hpool : pool.Sound) (hmaintenance : ctx.fSaplingMaintenance = false)
  (hroom : shieldedSize pool.mapTx ≤ MAX_BLOCK_SHIELDED_TXES_SIZE) (hout : Outbids ctx pool e)
include hpool hmaintenance hroom hout

theorem Selecting.modified_step (h : Selecting pool s) (hawaits : e ∈ s.mi ∨ Selected ctx e s.assembler)
    (hm : bestModified s.mapModifiedTx = some m) (hrank : e ∈ s.mi → ¬ m.2.WellBelow e.withAncestors) :
    StepOk ctx pool e (selectMeasure pool s) (considerPackage ctx pool s true m.1 m.2) := by
  have hget := bestModified_mem hm
  obtain ⟨⟨hmem, hblock⟩, -, hcovers⟩ := h.modified m.1 m.2 hget
  by_cases hunpaid : m.2.nModFeesWithAncestors < getFee ctx.minRelayTxFee m.2.nSizeWithAncestors.toNat
  · right
    refine ⟨_, considerPackage_unpaid hblock hunpaid, hawaits.resolve_left fun hmi => ?_⟩
    exact hrank hmi (hout.outbids m.2 (hcovers.size_ge hpool hmem hblock) hunpaid)
  · left
    obtain ⟨s', hs', hselecting, hmi, hgrown, hmeasure, -⟩ :=
      considerPackage_paid hpool h (h.shieldedRoom hpool hmaintenance hroom hmem hblock) (fun _ => hget) hmem hblock hcovers
        hunpaid
    refine ⟨s', hs', ⟨hselecting, ?_⟩, hmeasure⟩
    rw [hmi]
    exact hawaits.imp_right fun hsel => hsel.grown hpool hout.mem hgrown hselecting.size hselecting.sigOps

theorem Selecting.index_step (h : Selecting pool s) (hmi : s.mi = e' :: mi) (hblock : e' ∉ s.assembler.inBlock)
    (hawaits : (e = e' ∨ e ∈ mi) ∨ Selected ctx e s.assembler) : StepOk ctx pool e (selectMeasure pool s)
      (considerPackage ctx pool { s with mi := mi } false e' e'.withAncestors) := by
  obtain ⟨htail, hless⟩ := h.tail hmi
  have hsuffix : e' :: mi <:+ pool.mapTx := hmi ▸ h.mi
  have hmem' : e' ∈ pool.mapTx := hsuffix.subset List.mem_cons_self
  have hpos := size_pos hpool hout.mem
  have hpos' := size_pos hpool hmem'
  by_cases hunpaid : e'.withAncestors.nModFeesWithAncestors <
      getFee ctx.minRelayTxFee e'.withAncestors.nSizeWithAncestors.toNat
  · refine .inr ⟨_, considerPackage_unpaid hblock hunpaid, hawaits.resolve_left fun hin => ?_⟩
    rcases hin with rfl | hin
    · have := hout.paid
      omega
    · exact not_wellBelow (by omega) (by omega) (rank_of_mem_tail hpool hsuffix hin) (hout.outbids _ hpos' hunpaid)
  · left
    have hindex : false = true → KMap.get s.mapModifiedTx e' = some e'.withAncestors := fun hfalse => by
      cases hfalse
    obtain ⟨s', hs', hselecting, hmi', hgrown, hmeasure, hresult⟩ :=
      considerPackage_paid hpool htail (htail.shieldedRoom hpool hmaintenance hroom hmem' hblock) hindex hmem' hblock
        (hpool.covers hmem' _) hunpaid
    have hkeep := fun hsel : Selected ctx e s.assembler =>
      hsel.grown hpool hout.mem hgrown hselecting.size hselecting.sigOps
    refine ⟨s', hs', ⟨hselecting, ?_⟩, Nat.lt_of_le_of_lt hmeasure hless⟩
    rw [hmi']
    rcases hawaits with (rfl | hin) | hsel
    · -- its own turn
      right
      rcases hresult with hin' | hfull | hfinal
      · exact .inl hin'
      · exact hkeep (.inr hfull)
      · have hself : unconfirmedPackage pool s.assembler e = [e] := by
          simp [unconfirmedPackage, hout.alone, BlockAssembler.onlyUnconfirmed]
        rw [hself] at hfinal
        simp [testPackageFinality, hout.final] at hfinal
    · exact .inl hin
    · exact .inr (hkeep hsel)

/-- **One iteration** goes on with the invariant and a smaller measure, or returns a block with the entry or
    without room for it. -/
theorem packageStep_spec (h : Selecting pool s ∧ (e ∈ s.mi ∨ Selected ctx e s.assembler)) :
    StepOk ctx pool e (selectMeasure pool s) (packageStep ctx pool s) := by
  obtain ⟨h, hawaits⟩ := h
  unfold packageStep
  split
  · -- the loop has come to its end
    rename_i hnil _
    exact .inr ⟨_, rfl, hawaits.resolve_left (by simp [hnil])⟩
  · rename_i hnil hbest
    exact h.modified_step hpool hmaintenance hroom hout hawaits hbest (by simp [hnil])
  · rename_i e' mi hmi
    have hsuffix : e' :: mi <:+ pool.mapTx := hmi ▸ h.mi
    obtain ⟨htail, hless⟩ := h.tail hmi
    have hawaits' : (e = e' ∨ e ∈ mi) ∨ Selected ctx e s.assembler := by
      rwa [hmi, List.mem_cons] at hawaits
    split
    · rename_i hskip
      refine .inl ⟨_, rfl, ⟨htail, ?_⟩, hless⟩
      rcases hawaits' with (rfl | hin) | hsel
      · exact .inr (h.selected_of_skip hout hskip)
      · exact .inl hin
      · exact .inr hsel
    · rename_i hskip
      simp only [skipMapTxEntry, Bool.or_eq_true, decide_eq_true_eq, not_or] at hskip
      split
      · rename_i m hm
        obtain ⟨hbest, hbetter⟩ := Option.filter_eq_some_iff.mp hm
        refine h.modified_step hpool hmaintenance hroom hout hawaits hbest fun hin => ?_
        rw [hmi, List.mem_cons] at hin
        obtain ⟨⟨hmem, hblock⟩, -, hcovers⟩ := h.modified m.1 m.2 (bestModified_mem hbest)
        exact hcovers.not_wellBelow hpool hmem hblock hsuffix hbetter hin
      · exact h.index_step hpool hmaintenance hroom hout hmi hskip.1.2 hawaits'

/-- **The selection ends, and takes an entry that outbids the packages that do not pay.** In a consistent pool whose
    shielded transactions fit into one block, such an entry without ancestors is in the block, or does not fit into what
    is left. -/
theorem addPackageTxs_includes : ∃ a, addPackageTxs ctx pool = .ok (some a) ∧ Selected ctx e a := by
  exact whileLoop_total (fun s => Selecting pool s ∧ (e ∈ s.mi ∨ Selected ctx e s.assembler)) (Selected ctx e)
    (selectMeasure pool) (fun s hs => packageStep_spec hpool hmaintenance hroom hout hs)
    ⟨selecting_init pool, .inl hout.mem⟩ (selectMeasure_init pool)

end Run

end KrovaCoin
