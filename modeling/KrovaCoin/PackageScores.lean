import KrovaCoin.PackageSelection

/-!
# The scores of packages (`blockassembler.cpp`: `addPackageTxs`, `UpdatePackagesForAdded`)

The statistics of a modified entry are brought up to date in three ways: the first ancestor is taken off with its modified
fee, the later ones with the fee without its delta, and an entry that was put aside starts again from the statistics of
the pool.

* `Scored` — the invariant of the selection.

Principal results: `packageScores_exact`, `packageScores_inexact`.
-/

namespace KrovaCoin

open Lib

/-! ## Exact statistics -/

/-- The modified fees of an entry with its ancestors outside of a set. -/
def CTxMemPool.remainingFees (pool : CTxMemPool) (D : List CTxMemPoolEntry) (e : CTxMemPoolEntry) : Int :=
  (((pool.family e).filter fun a => decide (a ∉ D)).map CTxMemPoolEntry.getModifiedFee).sum

/-- The statistics are the sums over the entry and exactly those of its ancestors that are not in the set. -/
structure Exact (pool : CTxMemPool) (D : List CTxMemPoolEntry) (e : CTxMemPoolEntry) (st : PackageStats) : Prop where
  size : st.nSizeWithAncestors.toNat = pool.remaining CTxMemPoolEntry.getTxSize D e
  fees : st.nModFeesWithAncestors = toInt64 (pool.remainingFees D e)
  sigOps : st.nSigOpCountWithAncestors.toNat = pool.remaining (fun a => a.sigOpCount.toNat) D e

/-- A consistent pool after the prioritisations: the fees and the numbers of ancestors are exact, too. -/
structure CTxMemPool.Consistent (pool : CTxMemPool) : Prop where
  sound : pool.Sound
  fees : ∀ e ∈ pool.mapTx, e.withAncestors.nModFeesWithAncestors =
    toInt64 ((pool.family e).map CTxMemPoolEntry.getModifiedFee).sum
  count : ∀ e ∈ pool.mapTx, e.nCountWithAncestors.toNat = (pool.family e).length

section Exact

variable {pool : CTxMemPool} {D D' : List CTxMemPoolEntry} {e it : CTxMemPoolEntry} {st : PackageStats}

theorem filter_family_congr (h : ∀ a ∈ pool.family e, a ∈ D ↔ a ∈ D') :
    ((pool.family e).filter fun a => decide (a ∉ D)) = (pool.family e).filter fun a => decide (a ∉ D') :=
  List.filter_congr fun a ha => decide_eq_decide.mpr (not_congr (h a ha))

theorem Exact.congr (h : Exact pool D e st) (hD : ∀ a ∈ pool.family e, a ∈ D ↔ a ∈ D') : Exact pool D' e st := by
  obtain ⟨hsize, hfees, hsigOps⟩ := h
  unfold CTxMemPool.remaining at hsize hsigOps
  unfold CTxMemPool.remainingFees at hfees
  rw [filter_family_congr hD] at hsize hfees hsigOps
  exact ⟨hsize, hfees, hsigOps⟩

theorem remainingFees_cons (hnodup : (pool.family e).Nodup) (hit : it ∈ pool.family e) (hD : it ∉ D) :
    pool.remainingFees D e = it.getModifiedFee + pool.remainingFees (it :: D) e := by
  unfold CTxMemPool.remainingFees
  rw [filter_family_cons hnodup]
  exact (List.sum_map_erase _ (List.mem_filter.mpr ⟨hit, by simpa using hD⟩)).symm

theorem CTxMemPool.Consistent.exact (hpool : pool.Consistent) (he : e ∈ pool.mapTx)
    (hD : ∀ a ∈ pool.family e, a ∉ D) : Exact pool D e e.withAncestors := by
  have hall : ((pool.family e).filter fun a => decide (a ∉ D)) = pool.family e :=
    List.filter_eq_self.mpr fun a ha => decide_eq_true (hD a ha)
  refine ⟨?_, ?_, ?_⟩
  · rw [CTxMemPool.remaining, hall]
    exact hpool.sound.size e he
  · rw [CTxMemPool.remainingFees, hall]
    exact hpool.fees e he
  · rw [CTxMemPool.remaining, hall]
    exact hpool.sound.sigOps e he

theorem Exact.covers (h : Exact pool D e st) (hpool : pool.Sound) (he : e ∈ pool.mapTx) : Covers pool D e st where
  size := h.size.ge
  size_lt := by
    rw [h.size]
    exact (hpool.size e he ▸ remaining_le_family).trans_lt (hpool.size_lt e he)
  sigOps := h.sigOps.ge
  sigOps_lt := by
    rw [h.sigOps]
    exact (hpool.sigOps e he ▸ remaining_le_family).trans_lt (hpool.sigOps_lt e he)

/-- Statistics less an ancestor, if the fee that is taken off is the modified one. -/
theorem Exact.minus (h : Exact pool D e st) (hpool : pool.Sound) (he : e ∈ pool.mapTx) (hit : it ∈ pool.family e)
    (hD : it ∉ D) {fee : Int} (hfee : toInt64 fee = toInt64 it.getModifiedFee) : Exact pool (it :: D) e
      ⟨st.nSizeWithAncestors - UInt64.ofNat it.getTxSize, toInt64 (st.nModFeesWithAncestors - fee),
        st.nSigOpCountWithAncestors - it.sigOpCount⟩ := by
  have hnodup := hpool.family_nodup e he
  have hcovers := h.covers hpool he
  obtain ⟨hsub, hsub'⟩ := hcovers.toNat_minus hnodup hit hD
  have hsize := h.size
  have hsigOps := h.sigOps
  rw [remaining_cons hnodup hit hD] at hsize hsigOps
  refine ⟨by dsimp only; omega, ?_, by dsimp only; omega⟩
  rw [h.fees, remainingFees_cons hnodup hit hD, toInt64_eq_iff]
  rw [toInt64_eq_iff] at hfee
  unfold toInt64
  omega

end Exact

/-! ## The entries of `mapModifiedTx` -/

/-- No entry while no ancestor is in the block, and exact statistics from then on. -/
def Tracks (pool : CTxMemPool) (D : List CTxMemPoolEntry) (k : CTxMemPoolEntry) : Option PackageStats → Prop
  | none => ∀ a ∈ pool.ancestors k, a ∉ D
  | some st => (∃ a ∈ pool.ancestors k, a ∈ D) ∧ Exact pool D k st

/-- An entry with several ancestors has none with a fee delta. -/
def PlainAncestors (pool : CTxMemPool) (k : CTxMemPoolEntry) : Prop :=
  2 ≤ (pool.ancestors k).length → ∀ a ∈ pool.ancestors k, a.feeDelta = 0

section Tracks

variable {pool : CTxMemPool} {D D' : List CTxMemPoolEntry} {k it : CTxMemPoolEntry} {o : Option PackageStats}

theorem Tracks.congr (h : Tracks pool D k o) (hD : ∀ a, a ∈ D ↔ a ∈ D') : Tracks pool D' k o := by
  cases o with
  | none => exact fun a ha hin => h a ha ((hD a).mpr hin)
  | some st =>
    obtain ⟨⟨a, ha, hin⟩, hexact⟩ := h
    exact ⟨⟨a, ha, (hD a).mp hin⟩, hexact.congr fun a _ => hD a⟩

theorem two_le_length {l : List CTxMemPoolEntry} {a b : CTxMemPoolEntry} (ha : a ∈ l) (hb : b ∈ l) (hne : a ≠ b) :
    2 ≤ l.length := by
  cases l with
  | nil => cases ha
  | cons x l =>
    cases l with
    | nil => exact absurd ((List.mem_singleton.mp ha).trans (List.mem_singleton.mp hb).symm) hne
    | cons y l => simp

theorem Tracks.included (hpool : pool.Consistent) (hk : k ∈ pool.mapTx) (hplain : PlainAncestors pool k) (hkD : k ∉ D)
    (h : Tracks pool D k o) (hD : it ∉ D) (hne : it ≠ k) : Tracks pool (it :: D) k (parentIncluded pool k o it) := by
  unfold parentIncluded
  split
  · rename_i hanc
    have hfamily : it ∈ pool.family k := List.mem_cons_of_mem _ hanc
    refine ⟨⟨it, hanc, List.mem_cons_self⟩, ?_⟩
    cases o with
    | none =>
      have hexact : Exact pool D k k.withAncestors := hpool.exact hk fun a ha => by
        rcases List.mem_cons.mp ha with rfl | ha
        · exact hkD
        · exact h a ha
      exact hexact.minus hpool.sound hk hfamily hD rfl
    | some st =>
      -- another ancestor is in the block already, so that no ancestor has a delta
      obtain ⟨⟨a, ha, hin⟩, hexact⟩ := h
      have hdelta : it.feeDelta = 0 := hplain (two_le_length ha hanc fun heq => hD (heq ▸ hin)) it hanc
      refine hexact.minus hpool.sound hk hfamily hD ?_
      rw [CTxMemPoolEntry.getModifiedFee, hdelta, Int.add_zero]
      exact (toInt64_of_inInt64 (inInt64_toInt64 _)).symm
  · rename_i hanc
    have hfamily : it ∉ pool.family k := fun hin => (List.mem_cons.mp hin).elim hne hanc
    cases o with
    | none =>
      intro a ha hin
      rcases List.mem_cons.mp hin with rfl | hin
      · exact hanc ha
      · exact h a ha hin
    | some st =>
      obtain ⟨⟨a, ha, hin⟩, hexact⟩ := h
      refine ⟨⟨a, ha, List.mem_cons_of_mem _ hin⟩, hexact.congr fun b hb => ?_⟩
      have hne' : b ≠ it := fun heq => hfamily (heq ▸ hb)
      simp [hne']

theorem Tracks.foldl (hpool : pool.Consistent) (hk : k ∈ pool.mapTx) (hplain : PlainAncestors pool k)
    {l : List CTxMemPoolEntry} (hnodup : l.Nodup) (hl : ∀ it ∈ l, it ∉ D ∧ it ≠ k) (hkD : k ∉ D) (h : Tracks pool D k o) :
    Tracks pool (l.reverse ++ D) k (l.foldl (parentIncluded pool k) o) := by
  refine (foldl_parentIncluded_induct (P := fun D o => k ∉ D ∧ Tracks pool D k o) hnodup (fun it hit => (hl it hit).1)
    ⟨hkD, h⟩ fun it hit D o hD ⟨hkD, h⟩ => ⟨fun hin => ?_, ?_⟩).2
  · rcases List.mem_cons.mp hin with rfl | hin
    · exact (hl _ hit).2 rfl
    · exact hkD hin
  · exact h.included hpool hk hplain hkD hD (hl it hit).2

end Tracks

/-! ## The order of the block -/

/-- Every entry comes after all its ancestors. -/
def ParentsFirst (pool : CTxMemPool) (l : List CTxMemPoolEntry) : Prop :=
  ∀ pre e post, l = pre ++ e :: post → ∀ a ∈ pool.ancestors e, a ∈ pre

section Order

variable {pool : CTxMemPool} {package : List CTxMemPoolEntry}

theorem compareTxIterByAncestorCount_le {a b : CTxMemPoolEntry} :
    if compareTxIterByAncestorCount b a = false then a.nCountWithAncestors ≤ b.nCountWithAncestors
      else b.nCountWithAncestors ≤ a.nCountWithAncestors := by
  unfold compareTxIterByAncestorCount
  by_cases heq : b.nCountWithAncestors = a.nCountWithAncestors
  · rw [if_neg (not_not.mpr heq)]
    split_ifs
    · exact UInt64.le_of_eq heq.symm
    · exact UInt64.le_of_eq heq
  · rw [if_pos heq]
    split_ifs with hlt
    · exact UInt64.not_lt.mp (of_decide_eq_false hlt)
    · exact UInt64.le_of_lt (of_decide_eq_true (Bool.not_eq_false _ ▸ hlt))

theorem sortForBlock_sorted (package : List CTxMemPoolEntry) :
    (sortForBlock package).Pairwise fun a b => a.nCountWithAncestors ≤ b.nCountWithAncestors := by
  have hinsert : ∀ (e : CTxMemPoolEntry) (l : List CTxMemPoolEntry),
      l.Pairwise (fun a b => a.nCountWithAncestors ≤ b.nCountWithAncestors) →
      (l.orderedInsert (fun a b => compareTxIterByAncestorCount b a = false) e).Pairwise
        fun a b => a.nCountWithAncestors ≤ b.nCountWithAncestors := by
    intro e l hl
    induction l with
    | nil => exact List.pairwise_singleton _ _
    | cons x l ih =>
      obtain ⟨hx, hl'⟩ := List.pairwise_cons.mp hl
      have hle := @compareTxIterByAncestorCount_le e x
      rw [List.orderedInsert_cons]
      split_ifs at hle ⊢
      · refine List.pairwise_cons.mpr ⟨fun b hb => ?_, hl⟩
        rcases List.mem_cons.mp hb with rfl | hb
        · exact hle
        · exact UInt64.le_trans hle (hx b hb)
      · refine List.pairwise_cons.mpr ⟨fun b hb => ?_, ih hl'⟩
        rcases List.mem_cons.mp ((List.perm_orderedInsert _ _ _).mem_iff.mp hb) with rfl | hb
        · exact hle
        · exact hx b hb
  induction package with
  | nil => exact List.Pairwise.nil
  | cons e l ih => exact hinsert e _ ih

theorem count_lt (hpool : pool.Consistent) {e a : CTxMemPoolEntry} (he : e ∈ pool.mapTx) (ha : a ∈ pool.ancestors e) :
    a.nCountWithAncestors < e.nCountWithAncestors := by
  have hmem := hpool.sound.mem e he a ha
  have hsub : ∀ b ∈ pool.family a, b ∈ pool.ancestors e := by
    intro b hb
    rcases List.mem_cons.mp hb with rfl | hb
    · exact ha
    · exact hpool.sound.trans e he a ha b hb
  have hle := (List.subperm_of_subset (hpool.sound.family_nodup a hmem) hsub).length_le
  rw [UInt64.lt_iff_toNat_lt, hpool.count a hmem, hpool.count e he]
  show _ < (pool.ancestors e).length + 1
  omega

theorem mem_before_of_sorted (hpool : pool.Consistent) {pre post : List CTxMemPoolEntry} {e a : CTxMemPoolEntry}
    (hsort : sortForBlock package = pre ++ e :: post) (he : e ∈ pool.mapTx) (ha : a ∈ pool.ancestors e)
    (hin : a ∈ package) : a ∈ pre := by
  have hsorted := sortForBlock_sorted package
  rw [hsort, List.pairwise_append] at hsorted
  have hlt := count_lt hpool he ha
  rw [← (sortForBlock_perm package).mem_iff, hsort, List.mem_append, List.mem_cons] at hin
  rcases hin with hin | rfl | hin
  · exact hin
  · exact absurd hlt (UInt64.lt_irrefl _)
  · have hle := (List.pairwise_cons.mp hsorted.2.1).1 a hin
    exact absurd hlt (UInt64.not_lt.mpr hle)

theorem ParentsFirst.append (hpool : pool.Consistent) {block : List CTxMemPoolEntry} (h : ParentsFirst pool block)
    (hmem : ∀ e ∈ package, e ∈ pool.mapTx) (hclosed : ∀ e ∈ package, ∀ a ∈ pool.ancestors e, a ∈ block ∨ a ∈ package) :
    ParentsFirst pool (block ++ sortForBlock package) := by
  have hnew : ∀ {mid e post a}, sortForBlock package = mid ++ e :: post → a ∈ pool.ancestors e → a ∈ block ++ mid := by
    intro mid e post a hsort ha
    have he : e ∈ package := (sortForBlock_perm package).mem_iff.mp (hsort ▸ by simp)
    rcases hclosed e he a ha with hin | hin
    · exact List.mem_append_left _ hin
    · exact List.mem_append_right _ (mem_before_of_sorted hpool hsort (hmem e he) ha hin)
  intro pre e post heq a ha
  rcases List.append_eq_append_iff.mp heq with ⟨mid, rfl, hmid⟩ | ⟨mid, hmid, hrest⟩
  · exact hnew hmid ha
  · cases mid with
    | nil =>
      rw [List.append_nil] at hmid
      rw [← List.append_nil pre, ← hmid]
      exact @hnew [] e post a hrest.symm ha
    | cons x mid =>
      obtain ⟨rfl, -⟩ := List.cons.inj hrest
      exact h pre _ mid hmid a ha

end Order

/-! ## The invariant -/

/-- The pools whose scores stay exact: no package of a modified entry ends early; and an entry with several ancestors
    has none with a fee delta, is final with them, and finds room in the block whatever was added before. -/
structure Undisturbed (ctx : AssemblerContext) (pool : CTxMemPool) : Prop where
  unhindered : Unhindered ctx pool
  plain : ∀ e ∈ pool.mapTx, PlainAncestors pool e
  fits : ∀ e ∈ pool.mapTx, 2 ≤ (pool.ancestors e).length →
    1000 + (pool.mapTx.map CTxMemPoolEntry.getTxSize).sum < ctx.nBlockMaxSize ∧
      100 + (pool.mapTx.map fun a => a.sigOpCount.toNat).sum < MAX_BLOCK_SIGOPS_CURRENT
  final : ∀ e ∈ pool.mapTx, 2 ≤ (pool.ancestors e).length →
    ∀ a ∈ pool.family e, isFinalTx ctx.adjustedTime a.tx ctx.nHeight 0 = true

def WithinLimits (ctx : AssemblerContext) (block : List CTxMemPoolEntry) : Prop :=
  block = [] ∨ 1000 + (block.map CTxMemPoolEntry.getTxSize).sum < ctx.nBlockMaxSize ∧
    100 + (block.map fun a => a.sigOpCount.toNat).sum < MAX_BLOCK_SIGOPS_CURRENT

structure Scored (ctx : AssemblerContext) (pool : CTxMemPool) (s : SelectState) : Prop where
  selecting : Selecting pool s
  tracks : ∀ e ∈ pool.mapTx, e ∉ s.assembler.inBlock →
    Tracks pool s.assembler.inBlock e (KMap.get s.mapModifiedTx e) ∨
      e ∈ s.failedTx ∧ KMap.get s.mapModifiedTx e = none
  /-- An entry that was put aside waits for no ancestor. -/
  failed : ∀ e ∈ s.failedTx, ∀ a ∈ pool.ancestors e, a ∈ s.assembler.inBlock
  size : s.assembler.nBlockSize.toNat = 1000 + (s.assembler.inBlock.map CTxMemPoolEntry.getTxSize).sum
  sigOps : s.assembler.nBlockSigOps.toNat = 100 + (s.assembler.inBlock.map fun a => a.sigOpCount.toNat).sum
  within : WithinLimits ctx s.assembler.inBlock
  parentsFirst : ParentsFirst pool s.assembler.inBlock

/-- What an iteration adds pays for its size. -/
def Pays (ctx : AssemblerContext) (es : List CTxMemPoolEntry) : Prop :=
  getFee ctx.minRelayTxFee (es.map CTxMemPoolEntry.getTxSize).sum ≤
    toInt64 (es.map CTxMemPoolEntry.getModifiedFee).sum

section Scored

variable {ctx : AssemblerContext} {pool : CTxMemPool} {s s' : SelectState} {iter : CTxMemPoolEntry} {st : PackageStats}

theorem Scored.exact (h : Scored ctx pool s) (hst : KMap.get s.mapModifiedTx iter = some st) :
    (∃ a ∈ pool.ancestors iter, a ∈ s.assembler.inBlock) ∧ Exact pool s.assembler.inBlock iter st := by
  obtain ⟨⟨hmem, hblock⟩, -⟩ := h.selecting.modified iter st hst
  rcases h.tracks iter hmem hblock with htracks | ⟨-, hnone⟩
  · rwa [hst] at htracks
  · rw [hst] at hnone
    cases hnone

theorem Scored.exact_index (hpool : pool.Consistent) (h : Scored ctx pool s) (hmem : iter ∈ pool.mapTx)
    (hskip : skipMapTxEntry s iter = false) : Exact pool s.assembler.inBlock iter iter.withAncestors := by
  simp only [skipMapTxEntry, Bool.or_eq_false_iff, decide_eq_false_iff_not, Option.isSome_eq_false_iff,
    Option.isNone_iff_eq_none] at hskip
  obtain ⟨⟨hget, hblock⟩, hfailed⟩ := hskip
  refine hpool.exact hmem fun a ha => ?_
  rcases List.mem_cons.mp ha with rfl | ha
  · exact hblock
  · have htracks := (h.tracks iter hmem hblock).resolve_right fun hor => hfailed hor.1
    rw [hget] at htracks
    exact htracks a ha

theorem Exact.package (h : Exact pool s.assembler.inBlock iter st) (hiter : iter ∉ s.assembler.inBlock) :
    let es := sortForBlock (unconfirmedPackage pool s.assembler iter)
    (es.map CTxMemPoolEntry.getTxSize).sum = st.nSizeWithAncestors.toNat ∧
      toInt64 (es.map CTxMemPoolEntry.getModifiedFee).sum = st.nModFeesWithAncestors ∧
      (es.map fun a => a.sigOpCount.toNat).sum = st.nSigOpCountWithAncestors.toNat := by
  have hperm := (sortForBlock_perm _).trans (@unconfirmedPackage_perm pool s iter hiter)
  refine ⟨?_, ?_, ?_⟩
  · rw [(hperm.map _).sum_eq, h.size]
    rfl
  · rw [(hperm.map _).sum_eq, h.fees]
    rfl
  · rw [(hperm.map _).sum_eq, h.sigOps]
    rfl

/-- **A package is added**: the scores of the others stay exact. -/
theorem Scored.take (hpool : pool.Consistent) (hplain : ∀ e ∈ pool.mapTx, PlainAncestors pool e) (h : Scored ctx pool s)
    (hroom : ShieldedRoom ctx s.assembler (unconfirmedPackage pool s.assembler iter)) (hmem : iter ∈ pool.mapTx)
    (hiter : iter ∉ s.assembler.inBlock) (hexact : Exact pool s.assembler.inBlock iter st)
    (hfits : s.assembler.testPackage ctx st.nSizeWithAncestors st.nSigOpCountWithAncestors = true) :
    Scored ctx pool (withPackage ctx pool s iter) ∧ (withPackage ctx pool s iter).assembler.inBlock =
      s.assembler.inBlock ++ sortForBlock (unconfirmedPackage pool s.assembler iter) := by
  have hcovers := hexact.covers hpool.sound hmem
  have hadded := h.selecting.added hroom hiter hcovers hfits
  have hselecting := (h.selecting.addPackage hpool.sound hroom hmem hiter hcovers hfits).selecting
  obtain ⟨hnodup, hsubperm⟩ := h.selecting.block_subperm hpool.sound hmem hiter
  obtain ⟨hsize, -, hsigOps⟩ := hexact.package hiter
  obtain ⟨hsizeFits, hsigOpsFits⟩ := (hcovers.testPackage h.selecting.size h.selecting.sigOps).mp hfits
  have hmemPackage : ∀ {e}, e ∈ unconfirmedPackage pool s.assembler iter ↔
      e ∈ pool.family iter ∧ e ∉ s.assembler.inBlock := mem_unconfirmedPackage hiter
  have hblockSize := h.size
  have hblockSigOps := h.sigOps
  revert hselecting
  unfold withPackage
  dsimp only
  generalize unconfirmedPackage pool s.assembler iter = package at *
  generalize addSorted ctx (sortForBlock package) (s.assembler, s.mapModifiedTx) = added at *
  intro hselecting
  have hperm : (sortForBlock package).Perm package := sortForBlock_perm package
  refine ⟨⟨hselecting, ?_, ?_, ?_, ?_, ?_, ?_⟩, hadded.inBlock⟩
  · intro e he hout
    simp only [hadded.inBlock, List.mem_append, hperm.mem_iff, not_or] at hout
    obtain ⟨hout, hpackage⟩ := hout
    have hget : KMap.get (updatePackagesForAdded pool package added.2) e =
        package.foldl (parentIncluded pool e) (KMap.get s.mapModifiedTx e) := by
      rw [get_updatePackagesForAdded hpool.sound.nodup he hpackage, hadded.mods, if_neg (hperm.mem_iff.not.mpr hpackage)]
    rw [hget, hadded.inBlock]
    rcases h.tracks e he hout with htracks | ⟨hfailed, hnone⟩
    · left
      refine (htracks.foldl hpool he (hplain e he) (List.nodup_append.mp hnodup).2.1 ?_ hout).congr ?_
      · exact fun it hit => ⟨(hmemPackage.mp hit).2, fun heq => hpackage (heq ▸ hit)⟩
      · intro a
        rw [List.mem_append, List.mem_append, List.mem_reverse, hperm.mem_iff, or_comm]
    · right
      have hnot : ∀ it ∈ package, it ∉ pool.ancestors e := fun it hit hanc =>
        (hmemPackage.mp hit).2 (h.failed e hfailed it hanc)
      rw [foldl_parentIncluded_eq _ hnot]
      exact ⟨hfailed, hnone⟩
  · intro e he a ha
    rw [hadded.inBlock]
    exact List.mem_append_left _ (h.failed e he a ha)
  · rw [hadded.nBlockSize, hadded.inBlock, List.map_append, List.sum_append]
    omega
  · rw [hadded.nBlockSigOps, hadded.inBlock, List.map_append, List.sum_append]
    omega
  · right
    rw [hadded.inBlock, List.map_append, List.sum_append, List.map_append, List.sum_append]
    omega
  · rw [hadded.inBlock]
    refine h.parentsFirst.append hpool (fun e he => hsubperm.subset (List.mem_append_right _ he)) fun e he a ha => ?_
    have hfamily : a ∈ pool.family iter := by
      rcases List.mem_cons.mp (hmemPackage.mp he).1 with rfl | hanc
      · exact List.mem_cons_of_mem _ ha
      · exact List.mem_cons_of_mem _ (hpool.sound.trans iter hmem e hanc a ha)
    by_cases hin : a ∈ s.assembler.inBlock
    · exact .inl hin
    · exact .inr (hmemPackage.mpr ⟨hfamily, hin⟩)

theorem Scored.passes (hpool : pool.Consistent) (hcond : Undisturbed ctx pool) (h : Scored ctx pool s)
    (hmem : iter ∈ pool.mapTx) (hiter : iter ∉ s.assembler.inBlock) (hexact : Exact pool s.assembler.inBlock iter st)
    (hseveral : 2 ≤ (pool.ancestors iter).length) : PackagePasses ctx pool s iter st := by
  obtain ⟨hsizeFits, hsigOpsFits⟩ := hcond.fits iter hmem hseveral
  obtain ⟨l, hl, hsub⟩ := (h.selecting.block_subperm hpool.sound hmem hiter).2
  have hsum : ∀ w : CTxMemPoolEntry → Nat, (s.assembler.inBlock.map w).sum +
      (((pool.family iter).filter fun a => decide (a ∉ s.assembler.inBlock)).map w).sum ≤ (pool.mapTx.map w).sum := by
    intro w
    rw [← ((@unconfirmedPackage_perm pool s iter hiter).map w).sum_eq, ← List.sum_append, ← List.map_append,
      ← (hl.map w).sum_eq]
    exact (hsub.map w).sum_le_sum fun _ _ => Nat.zero_le _
  have hcovers := hexact.covers hpool.sound hmem
  constructor
  · rw [hcovers.testPackage h.selecting.size h.selecting.sigOps, hexact.size, hexact.sigOps, h.size, h.sigOps]
    have hsizes := hsum CTxMemPoolEntry.getTxSize
    have hcounts := hsum fun a => a.sigOpCount.toNat
    unfold CTxMemPool.remaining
    omega
  · refine List.all_eq_true.mpr fun a ha => ?_
    exact hcond.final iter hmem hseveral a ((mem_unconfirmedPackage hiter).mp ha).1

theorem Scored.aside (h : Scored ctx pool s) (hst : KMap.get s.mapModifiedTx iter = some st)
    (hfew : (pool.ancestors iter).length < 2) : Scored ctx pool (setAside s true iter) := by
  obtain ⟨⟨b, hb, hblock⟩, -⟩ := h.exact hst
  refine { h with selecting := (h.selecting.setAside fun _ => hst).1, tracks := ?_, failed := ?_ }
  · intro e he hout
    by_cases heq : e = iter
    · rw [heq]
      exact .inr ⟨List.mem_cons_self, KMap.get_set_self _ _ _⟩
    · have hget : KMap.get (setAside s true iter).mapModifiedTx e = KMap.get s.mapModifiedTx e :=
        KMap.get_set_ne _ none heq
      rw [hget]
      exact (h.tracks e he hout).imp id fun hfailed => ⟨List.mem_cons_of_mem _ hfailed.1, hfailed.2⟩
  · intro e he a ha
    rcases List.mem_cons.mp he with rfl | he
    · by_cases heq : a = b
      · exact heq ▸ hblock
      · exact absurd (two_le_length ha hb heq) (by omega)
    · exact h.failed e he a ha

theorem Scored.consider (hpool : pool.Consistent) (hcond : Undisturbed ctx pool) (h : Scored ctx pool s)
    {fUsingModified : Bool} (hmodified : fUsingModified = true → KMap.get s.mapModifiedTx iter = some st)
    (hmem : iter ∈ pool.mapTx) (hexact : Exact pool s.assembler.inBlock iter st)
    (hnext : considerPackage ctx pool s fUsingModified iter st = .ok (.next s')) :
    Scored ctx pool s' ∧ ∃ es, s'.assembler.inBlock = s.assembler.inBlock ++ es ∧ (es = [] ∨ Pays ctx es) := by
  obtain ⟨⟨hiter, hpaid⟩, ⟨hpasses, rfl⟩ | ⟨hfails, rfl⟩⟩ := considerPackage_next hnext
  · by_cases hroom : ShieldedRoom ctx s.assembler (unconfirmedPackage pool s.assembler iter)
    · obtain ⟨hscored, hblock⟩ := h.take hpool hcond.plain hroom hmem hiter hexact hpasses.fits
      obtain ⟨hsize, hfees, -⟩ := hexact.package hiter
      refine ⟨hscored, _, hblock, .inr ?_⟩
      rw [Pays, hsize, hfees]
      exact hpaid
    · obtain ⟨halone, hdescendants⟩ :=
        (hcond.unhindered.room hpool.sound h.selecting hmem hiter).resolve_left hroom
      rw [withPackage_refused halone hdescendants hroom]
      exact ⟨h, [], (List.append_nil _).symm, .inl rfl⟩
  · cases fUsingModified with
    | false => exact ⟨h, [], (List.append_nil _).symm, .inl rfl⟩
    | true =>
      have hfew : (pool.ancestors iter).length < 2 :=
        not_le.mp fun hseveral => hfails (h.passes hpool hcond hmem hiter hexact hseveral)
      exact ⟨h.aside (hmodified rfl) hfew, [], (List.append_nil _).symm, .inl rfl⟩

theorem Scored.tail (h : Scored ctx pool s) {e : CTxMemPoolEntry} {mi : List CTxMemPoolEntry} (hmi : s.mi = e :: mi) :
    Scored ctx pool { s with mi := mi } :=
  { h with selecting := (h.selecting.tail hmi).1 }

/-- **One iteration** keeps the scores exact, and adds nothing or a package that pays. -/
theorem Scored.step (hpool : pool.Consistent) (hcond : Undisturbed ctx pool) (h : Scored ctx pool s)
    (hnext : packageStep ctx pool s = .ok (.next s')) :
    Scored ctx pool s' ∧ ∃ es, s'.assembler.inBlock = s.assembler.inBlock ++ es ∧ (es = [] ∨ Pays ctx es) := by
  rcases packageStep_next hnext with ⟨e, mi, hmi, rfl⟩ | ⟨m, hbest, hconsider⟩ | ⟨e, mi, hmi, hskip, hconsider⟩
  · exact ⟨h.tail hmi, [], (List.append_nil _).symm, .inl rfl⟩
  · have hget := bestModified_mem hbest
    obtain ⟨⟨hmem, -⟩, -⟩ := h.selecting.modified m.1 m.2 hget
    exact h.consider hpool hcond (fun _ => hget) hmem (h.exact hget).2 hconsider
  · have hmem : e ∈ pool.mapTx := (hmi ▸ h.selecting.mi).subset List.mem_cons_self
    have hindex : false = true → KMap.get s.mapModifiedTx e = some e.withAncestors := fun hfalse => by
      cases hfalse
    have hexact := h.exact_index hpool hmem hskip
    exact Scored.consider (s := { s with mi := mi }) hpool hcond (h.tail hmi) hindex hmem hexact hconsider

theorem scored_init (ctx : AssemblerContext) (pool : CTxMemPool) : Scored ctx pool ⟨resetBlock, pool.mapTx, ∅, []⟩ where
  selecting := selecting_init pool
  tracks e _ _ := .inl fun a _ hin => by cases hin
  failed e he := by cases he
  size := rfl
  sigOps := rfl
  within := .inl rfl
  parentsFirst pre e post heq := by
    cases pre <;> cases heq

end Scored

/-! ## Runs -/

/-- The states in which the loop of `addPackageTxs` begins an iteration. -/
inductive SelectReachable (ctx : AssemblerContext) (pool : CTxMemPool) : SelectState → Prop
  | start : SelectReachable ctx pool ⟨resetBlock, pool.mapTx, ∅, []⟩
  | next {s s' : SelectState} (hs : SelectReachable ctx pool s) (hnext : packageStep ctx pool s = .ok (.next s')) :
      SelectReachable ctx pool s'

theorem SelectReachable.scored {ctx : AssemblerContext} {pool : CTxMemPool} {s : SelectState} (hpool : pool.Consistent)
    (hcond : Undisturbed ctx pool) (hs : SelectReachable ctx pool s) : Scored ctx pool s := by
  induction hs with
  | start => exact scored_init ctx pool
  | next _ hnext ih => exact (ih.step hpool hcond hnext).1

/-- **The scores are exact** at every iteration, for every consistent pool that is undisturbed: the statistics of each
    modified entry are the sums over the entry and its ancestors outside of the block. The block keeps to its limits,
    has every entry after its ancestors, and grows by packages that pay for their sizes. -/
theorem packageScores_exact {ctx : AssemblerContext} {pool : CTxMemPool} {s : SelectState} (hpool : pool.Consistent)
    (hcond : Undisturbed ctx pool) (hs : SelectReachable ctx pool s) :
    (∀ e st, KMap.get s.mapModifiedTx e = some st → Exact pool s.assembler.inBlock e st) ∧
      WithinLimits ctx s.assembler.inBlock ∧ ParentsFirst pool s.assembler.inBlock ∧
      ∀ s', packageStep ctx pool s = .ok (.next s') →
        ∃ es, s'.assembler.inBlock = s.assembler.inBlock ++ es ∧ (es = [] ∨ Pays ctx es) := by
  have hscored := hs.scored hpool hcond
  refine ⟨fun e st hst => (hscored.exact hst).2, hscored.within, hscored.parentsFirst, fun s' hnext => ?_⟩
  exact (hscored.step hpool hcond hnext).2

/-! ## A prioritised parent -/

def parentEntry (hash : Uint256) (nFee feeDelta : Int) : CTxMemPoolEntry :=
  ⟨⟨hash, 1, 0, [⟨⟨hash + 100, 0⟩, [], 0⟩], [⟨100000000, []⟩], 0, none, none⟩, nFee, feeDelta, 0, 1,
    ⟨60, nFee + feeDelta, 0⟩⟩

def firstParent : CTxMemPoolEntry := parentEntry 1 1000000 0

def secondParent (feeDelta : Int) : CTxMemPoolEntry := parentEntry 2 900000 feeDelta

/-- A transaction that spends an output of each parent and pays no fee. -/
def freeChild (feeDelta : Int) : CTxMemPoolEntry :=
  ⟨⟨3, 1, 0, [⟨⟨1, 0⟩, [], 0⟩, ⟨⟨2, 0⟩, [], 0⟩], [⟨200000000, []⟩], 0, none, none⟩, 0, 0, 0, 3,
    ⟨221, 1900000 + feeDelta, 0⟩⟩

def prioritisedPool (feeDelta : Int) : CTxMemPool :=
  ⟨[firstParent, secondParent feeDelta, freeChild feeDelta],
    fun e => if e.tx.hash = 3 then [firstParent, secondParent feeDelta] else []⟩

def prioritisedContext : AssemblerContext :=
  ⟨DEFAULT_MIN_RELAY_TX_FEE, 750000, 2041, 1786000000, false, defaultBlockMaxSize_le⟩

/-- The state after the first parent was added. -/
def oneParent (feeDelta : Int) : SelectState :=
  withPackage prioritisedContext (prioritisedPool feeDelta)
    ⟨resetBlock, [secondParent feeDelta, freeChild feeDelta], ∅, []⟩ firstParent

theorem prioritisedPool_consistent : ∀ feeDelta ∈ [0, 50000], (prioritisedPool feeDelta).Consistent := by
  intro feeDelta hdelta
  have hsound : (prioritisedPool feeDelta).Sound := by
    rcases List.mem_pair.mp hdelta with rfl | rfl <;>
      exact ⟨by decide +kernel, by decide +kernel, by decide +kernel, by decide +kernel, by decide +kernel,
        by decide +kernel, by decide +kernel, by decide +kernel, by decide +kernel, by decide +kernel⟩
  rcases List.mem_pair.mp hdelta with rfl | rfl <;> exact ⟨hsound, by decide +kernel, by decide +kernel⟩

theorem selectReachable_oneParent (feeDelta : Int) :
    SelectReachable prioritisedContext (prioritisedPool feeDelta) (oneParent feeDelta) := by
  have hfits : resetBlock.testPackage prioritisedContext 60 0 = true := by decide +kernel
  have hfinal : testPackageFinality prioritisedContext [firstParent] = true := by decide +kernel
  have hpaid : ¬ firstParent.withAncestors.nModFeesWithAncestors < getFee prioritisedContext.minRelayTxFee 60 := by
    decide +kernel
  have halone : (prioritisedPool feeDelta).ancestors firstParent = [] := rfl
  refine .next .start ?_
  rw [packageStep_index rfl rfl rfl]
  exact considerPackage_passes List.not_mem_nil hpaid ⟨hfits, unconfirmedPackage_alone halone ▸ hfinal⟩

/-- Without a delta the score of the child is exact once the first parent is in the block. -/
theorem packageScores_exact_plain : KMap.get (oneParent 0).mapModifiedTx (freeChild 0) = some ⟨161, 900000, 0⟩ ∧
      Exact (prioritisedPool 0) (oneParent 0).assembler.inBlock (freeChild 0) ⟨161, 900000, 0⟩ ∧
      ParentsFirst (prioritisedPool 0) (oneParent 0).assembler.inBlock := by
  have hcond : Undisturbed prioritisedContext (prioritisedPool 0) :=
    { unhindered := .inl (by decide +kernel)
      plain := by
        unfold PlainAncestors
        decide +kernel
      fits := by decide +kernel
      final := by decide +kernel }
  have hget : KMap.get (oneParent 0).mapModifiedTx (freeChild 0) = some ⟨161, 900000, 0⟩ := by decide +kernel
  obtain ⟨hexact, -, hfirst, -⟩ :=
    packageScores_exact (prioritisedPool_consistent 0 (by decide)) hcond (selectReachable_oneParent 0)
  exact ⟨hget, hexact _ _ hget, hfirst⟩

/-- The state after the second parent was added, too. -/
def twoParents : SelectState :=
  withPackage prioritisedContext (prioritisedPool 50000) { oneParent 50000 with mi := [freeChild 50000] }
    (secondParent 50000)

theorem selectReachable_twoParents : SelectReachable prioritisedContext (prioritisedPool 50000) twoParents := by
  have hskip : skipMapTxEntry (oneParent 50000) (secondParent 50000) = false := by decide +kernel
  have hbest : (bestModified (oneParent 50000).mapModifiedTx).filter (fun m => compareByAncestorFee m
      (secondParent 50000, (secondParent 50000).withAncestors)) = none := by decide +kernel
  have hpasses : PackagePasses prioritisedContext (prioritisedPool 50000) { oneParent 50000 with mi := [freeChild 50000] }
      (secondParent 50000) (secondParent 50000).withAncestors := ⟨by decide +kernel, by decide +kernel⟩
  refine (selectReachable_oneParent 50000).next ?_
  rw [packageStep_index rfl hskip hbest]
  exact considerPackage_passes (by decide +kernel) (by decide +kernel) hpasses

/-- **The delta of the second parent stays in the score of the child**: both parents are in the block, and the child
    counts for the delta though it pays nothing. It is added, too, below the fee for relay. -/
theorem packageScores_inexact : (prioritisedPool 50000).Consistent ∧
    ∃ s s' st, SelectReachable prioritisedContext (prioritisedPool 50000) s ∧
      KMap.get s.mapModifiedTx (freeChild 50000) = some st ∧ st.nModFeesWithAncestors = 50000 ∧
      (prioritisedPool 50000).remainingFees s.assembler.inBlock (freeChild 50000) = 0 ∧
      packageStep prioritisedContext (prioritisedPool 50000) s = .ok (.next s') ∧
      s'.assembler.inBlock = s.assembler.inBlock ++ [freeChild 50000] ∧
      ¬ Pays prioritisedContext [freeChild 50000] := by
  let st : PackageStats := ⟨101, 50000, 0⟩
  let s : SelectState := { twoParents with mi := [] }
  have hget : KMap.get s.mapModifiedTx (freeChild 50000) = some st := by decide +kernel
  have hbest : bestModified s.mapModifiedTx = some (freeChild 50000, st) := by decide +kernel
  have hpasses : PackagePasses prioritisedContext (prioritisedPool 50000) s (freeChild 50000) st :=
    ⟨by decide +kernel, by decide +kernel⟩
  have hreach : SelectReachable prioritisedContext (prioritisedPool 50000) s :=
    selectReachable_twoParents.next (packageStep_skip rfl (by decide +kernel))
  have hnext : packageStep prioritisedContext (prioritisedPool 50000) s =
      .ok (.next (withPackage prioritisedContext (prioritisedPool 50000) s (freeChild 50000))) := by
    rw [packageStep_modified rfl hbest]
    exact considerPackage_passes (by decide +kernel) (by decide +kernel) hpasses
  refine ⟨prioritisedPool_consistent 50000 (by decide), s, _, st, hreach, hget, rfl, by decide +kernel, hnext,
    by decide +kernel, ?_⟩
  unfold Pays
  decide +kernel

end KrovaCoin
