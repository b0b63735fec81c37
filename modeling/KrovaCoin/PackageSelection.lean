import KrovaCoin.BlockAssembler

/-!
# The end of the selection (`blockassembler.cpp`: `addPackageTxs`)

The loop over a package ends at a shielded transaction that may not be added. If the package was that of a modified
entry, the entry stays where it was, and the next iteration finds it again.

Principal results: `addPackageTxs_ends`, `addPackageTxs_runs_on`.
-/

namespace KrovaCoin

open Lib

/-! ## The condition -/

/-- All shielded transactions of the pool may be added to one block, or no shielded transaction has ancestors or descendants
    in the pool. -/
def Unhindered (ctx : AssemblerContext) (pool : CTxMemPool) : Prop :=
  (ctx.fSaplingMaintenance = false ∧ shieldedSize pool.mapTx ≤ MAX_BLOCK_SHIELDED_TXES_SIZE) ∨
    ∀ e ∈ pool.mapTx, pool.ancestors e ≠ [] → ∀ a ∈ pool.family e, a.isShielded = false

section Selection

variable {ctx : AssemblerContext} {pool : CTxMemPool} {s : SelectState} {iter : CTxMemPoolEntry} {st : PackageStats}

theorem unconfirmedPackage_alone {a : BlockAssembler} (halone : pool.ancestors iter = []) :
    unconfirmedPackage pool a iter = [iter] := by
  simp [unconfirmedPackage, halone, BlockAssembler.onlyUnconfirmed]

theorem addSorted_refused {a : BlockAssembler} {mods : ModifiedTxs} {es : List CTxMemPoolEntry}
    (hroom : ¬ ShieldedRoom ctx a [iter]) : addSorted ctx (iter :: es) (a, mods) = (a, mods) := by
  rw [ShieldedRoom, not_or, not_and] at hroom
  obtain ⟨hshielded, hfull⟩ := hroom
  have hiter : iter.isShielded = true := by simpa using hshielded
  have hsize : shieldedSize [iter] = iter.getTxSize := by simp [shieldedSize, hiter]
  rw [hsize, not_le] at hfull
  rw [addSorted, if_pos hiter, if_pos]
  by_cases hmaintenance : ctx.fSaplingMaintenance = true
  · exact .inl hmaintenance
  · exact .inr (hfull (by simpa using hmaintenance))

theorem updatePackagesForAdded_alone {mods : ModifiedTxs} (hdescendants : pool.descendants iter = []) :
    updatePackagesForAdded pool [iter] mods = mods := by
  simp [updatePackagesForAdded, hdescendants]

/-- Where no package of a modified entry can end early, there is room for a package, or it is a single shielded entry
    without descendants. -/
theorem Unhindered.room (hspace : Unhindered ctx pool) (hpool : pool.Sound) (h : Selecting pool s)
    (hmem : iter ∈ pool.mapTx) (hiter : iter ∉ s.assembler.inBlock) :
    ShieldedRoom ctx s.assembler (unconfirmedPackage pool s.assembler iter) ∨
      pool.ancestors iter = [] ∧ pool.descendants iter = [] := by
  rcases hspace with ⟨hmaintenance, hroom⟩ | hfree
  · exact .inl (h.shieldedRoom hpool hmaintenance hroom hmem hiter)
  · by_cases halone : pool.ancestors iter = []
    · by_cases hshielded : iter.isShielded = true
      · refine .inr ⟨halone, List.filter_eq_nil_iff.mpr fun desc hdesc hanc => ?_⟩
        rw [decide_eq_true_eq] at hanc
        have hfalse := hfree desc hdesc (List.ne_nil_of_mem hanc) iter (List.mem_cons_of_mem _ hanc)
        rw [hshielded] at hfalse
        cases hfalse
      · left
        rw [unconfirmedPackage_alone halone]
        exact .inl (List.forall_mem_singleton.mpr (by simpa using hshielded))
    · exact .inl (.inl fun e he => hfree iter hmem halone e ((mem_unconfirmedPackage hiter).mp he).1)

theorem withPackage_refused (halone : pool.ancestors iter = []) (hdescendants : pool.descendants iter = [])
    (hroom : ¬ ShieldedRoom ctx s.assembler (unconfirmedPackage pool s.assembler iter)) :
    withPackage ctx pool s iter = s := by
  have hsort : sortForBlock [iter] = [iter] := rfl
  rw [unconfirmedPackage_alone halone] at hroom
  unfold withPackage
  dsimp only
  rw [unconfirmedPackage_alone halone, hsort, addSorted_refused hroom, updatePackagesForAdded_alone hdescendants]

theorem Selecting.consider_cases (hpool : pool.Sound) (hspace : Unhindered ctx pool) (h : Selecting pool s)
    {fUsingModified : Bool} (hmodified : fUsingModified = true → KMap.get s.mapModifiedTx iter = some st)
    (hmem : iter ∈ pool.mapTx) (hiter : iter ∉ s.assembler.inBlock)
    (hcovers : Covers pool s.assembler.inBlock iter st) :
    (∃ s', considerPackage ctx pool s fUsingModified iter st = .ok (.next s') ∧ Selecting pool s' ∧
      selectMeasure pool s' + fUsingModified.toNat ≤ selectMeasure pool s) ∨
      ∃ r, considerPackage ctx pool s fUsingModified iter st = .ok (.done r) := by
  by_cases hpaid : st.nModFeesWithAncestors < getFee ctx.minRelayTxFee st.nSizeWithAncestors.toNat
  · exact .inr ⟨_, considerPackage_unpaid hiter hpaid⟩
  by_cases hroom : ShieldedRoom ctx s.assembler (unconfirmedPackage pool s.assembler iter)
  · obtain ⟨s', hs', hselecting, -, -, hmeasure, -⟩ :=
      considerPackage_paid hpool h hroom hmodified hmem hiter hcovers hpaid
    exact .inl ⟨s', hs', hselecting, hmeasure⟩
  · obtain ⟨halone, hdescendants⟩ := (hspace.room hpool h hmem hiter).resolve_left hroom
    -- a modified entry has ancestors, so that this is one of the index
    have hindex : fUsingModified = false := by
      cases fUsingModified with
      | false => rfl
      | true => exact absurd halone (h.modified iter st (hmodified rfl)).2.1
    subst hindex
    refine .inl ⟨s, ?_, h, Nat.le_refl _⟩
    by_cases hpasses : PackagePasses ctx pool s iter st
    · rw [considerPackage_passes hiter hpaid hpasses, withPackage_refused halone hdescendants hroom]
    · exact considerPackage_fails hiter hpaid hpasses

/-- **One iteration** ends the loop, or goes on with a smaller measure. -/
theorem Selecting.step (hpool : pool.Sound) (hspace : Unhindered ctx pool) (h : Selecting pool s) :
    (∃ s', packageStep ctx pool s = .ok (.next s') ∧ Selecting pool s' ∧
      selectMeasure pool s' < selectMeasure pool s) ∨ ∃ r, packageStep ctx pool s = .ok (.done r) ∧ True := by
  have hbest : ∀ {m : CTxMemPoolEntry × PackageStats}, bestModified s.mapModifiedTx = some m →
      (∃ s', considerPackage ctx pool s true m.1 m.2 = .ok (.next s') ∧ Selecting pool s' ∧
        selectMeasure pool s' < selectMeasure pool s) ∨
        ∃ r, considerPackage ctx pool s true m.1 m.2 = .ok (.done r) ∧ True := by
    intro m hm
    have hget := bestModified_mem hm
    obtain ⟨⟨hmem, hblock⟩, -, hcovers⟩ := h.modified m.1 m.2 hget
    exact (h.consider_cases hpool hspace (fun _ => hget) hmem hblock hcovers).imp_right fun ⟨r, hr⟩ => ⟨r, hr, trivial⟩
  unfold packageStep
  split
  · exact .inr ⟨_, rfl, trivial⟩
  · rename_i hm
    exact hbest hm
  · rename_i e mi hmi
    obtain ⟨htail, hless⟩ := h.tail hmi
    split
    · exact .inl ⟨_, rfl, htail, hless⟩
    · rename_i hskip
      simp only [skipMapTxEntry, Bool.or_eq_true, decide_eq_true_eq, not_or] at hskip
      split
      · rename_i m hm
        exact hbest (Option.filter_eq_some_iff.mp hm).1
      · have hmem : e ∈ pool.mapTx := (hmi ▸ h.mi).subset List.mem_cons_self
        have hindex : false = true → KMap.get s.mapModifiedTx e = some e.withAncestors := fun hfalse => by
          cases hfalse
        rcases htail.consider_cases hpool hspace hindex hmem hskip.1.2 (hpool.covers hmem _) with
          ⟨s', hs', hselecting, hle⟩ | ⟨r, hr⟩
        · exact .inl ⟨s', hs', hselecting, lt_of_le_of_lt hle hless⟩
        · exact .inr ⟨r, hr, trivial⟩

end Selection

/-- A shielded transaction with a transparent output. -/
def shieldedParentTx : CTransaction :=
  let out : OutputDescription := ⟨0, 21, 0, Vector.replicate 580 0, Vector.replicate 80 0, Vector.replicate 192 0⟩
  ⟨1, 3, 0, [⟨⟨100, 0⟩, [], 0⟩], [⟨200000000, []⟩], 0, some ⟨-100000000, [], [out], Vector.replicate 64 0⟩, none⟩

def shieldedParent : CTxMemPoolEntry :=
  ⟨shieldedParentTx, 100000000, 0, 0, 1, ⟨UInt64.ofNat shieldedParentTx.getTotalSize, 100000000, 0⟩⟩

/-- A transaction that spends this output. -/
def transparentChildTx : CTransaction := ⟨2, 1, 0, [⟨⟨1, 0⟩, [], 0⟩], [⟨199990000, []⟩], 0, none, none⟩

def transparentChild : CTxMemPoolEntry :=
  ⟨transparentChildTx, 10000, 0, 0, 2,
    ⟨UInt64.ofNat (transparentChildTx.getTotalSize + shieldedParentTx.getTotalSize), 100010000, 0⟩⟩

def shieldedPool : CTxMemPool :=
  ⟨[shieldedParent, transparentChild], fun e => if e.tx.hash = 2 then [shieldedParent] else []⟩

def shieldedContext (fSaplingMaintenance : Bool) : AssemblerContext :=
  ⟨DEFAULT_MIN_RELAY_TX_FEE, 750000, 2041, 1786000000, fSaplingMaintenance, defaultBlockMaxSize_le⟩

theorem ancestors_shieldedParent : shieldedPool.ancestors shieldedParent = [] := rfl

theorem transparentChild_ne : transparentChild ≠ shieldedParent := fun h => by
  have hhash := congrArg (fun e => e.tx.hash) h
  exact absurd hhash (by decide)

theorem descendants_shieldedParent : shieldedPool.descendants shieldedParent = [transparentChild] := by
  simp [CTxMemPool.descendants, shieldedPool, shieldedParent, shieldedParentTx, transparentChild, transparentChildTx]

theorem descendants_transparentChild : shieldedPool.descendants transparentChild = [] := rfl

theorem shieldedPool_sound : shieldedPool.Sound where
  nodup := List.nodup_cons.mpr ⟨fun h => transparentChild_ne (List.mem_singleton.mp h).symm, List.nodup_singleton _⟩
  sorted := by decide +kernel
  family_nodup e he := by
    rcases List.mem_pair.mp he with rfl | rfl
    · exact List.nodup_singleton _
    · exact List.nodup_cons.mpr ⟨fun h => transparentChild_ne (List.mem_singleton.mp h), List.nodup_singleton _⟩
  mem e he a ha := by
    rcases List.mem_pair.mp he with rfl | rfl
    · cases ha
    · rw [List.mem_singleton.mp ha]
      exact List.mem_cons_self
  trans e he a ha b hb := by
    rcases List.mem_pair.mp he with rfl | rfl
    · cases ha
    · rw [List.mem_singleton.mp ha] at hb
      cases hb
  size_ge := by decide +kernel
  size := by decide +kernel
  size_lt := by decide +kernel
  sigOps := by decide +kernel
  sigOps_lt := by decide +kernel

/-- The parent has been refused, but the child has been updated for it. -/
def stuckState : SelectState :=
  ⟨resetBlock, [], KMap.set ∅ transparentChild (some (withoutParent transparentChild shieldedParent none)), []⟩

theorem bestModified_stuckState : bestModified stuckState.mapModifiedTx =
    some (transparentChild, withoutParent transparentChild shieldedParent none) := rfl

theorem not_shieldedRoom_maintenance : ¬ ShieldedRoom (shieldedContext true) resetBlock [shieldedParent] := by
  rintro (hshielded | ⟨hmaintenance, -⟩)
  · exact absurd (hshielded _ List.mem_cons_self) (by decide +kernel)
  · cases hmaintenance

theorem packageStep_refuses_parent :
    packageStep (shieldedContext true) shieldedPool ⟨resetBlock, shieldedPool.mapTx, ∅, []⟩ =
      .ok (.next { stuckState with mi := [transparentChild] }) := by
  have hpasses : PackagePasses (shieldedContext true) shieldedPool ⟨resetBlock, [transparentChild], ∅, []⟩ shieldedParent
      shieldedParent.withAncestors := ⟨by decide +kernel, by decide +kernel⟩
  have hsort : sortForBlock [shieldedParent] = [shieldedParent] := rfl
  have hupdate : updatePackagesForAdded shieldedPool [shieldedParent] ∅ =
      KMap.set ∅ transparentChild (some (withoutParent transparentChild shieldedParent none)) := by
    simp only [updatePackagesForAdded, List.foldl_cons, List.foldl_nil, descendants_shieldedParent, updateDescendant,
      List.mem_singleton, if_neg transparentChild_ne]
    rfl
  have hstate : withPackage (shieldedContext true) shieldedPool ⟨resetBlock, [transparentChild], ∅, []⟩ shieldedParent =
      { stuckState with mi := [transparentChild] } := by
    unfold withPackage
    dsimp only
    rw [unconfirmedPackage_alone ancestors_shieldedParent, hsort, addSorted_refused not_shieldedRoom_maintenance, hupdate]
    rfl
  rw [packageStep_index rfl rfl rfl, ← hstate]
  exact considerPackage_passes (by decide +kernel) (by decide +kernel) hpasses

theorem packageStep_stuckState :
    packageStep (shieldedContext true) shieldedPool stuckState = .ok (.next stuckState) := by
  have hpackage : unconfirmedPackage shieldedPool stuckState.assembler transparentChild =
      [shieldedParent, transparentChild] := by
    show List.orderedInsert (fun a b => compareIteratorByHash b a = false) transparentChild [shieldedParent] = _
    rw [List.orderedInsert_cons, if_neg (by decide +kernel)]
    rfl
  have hsort : sortForBlock [shieldedParent, transparentChild] = [shieldedParent, transparentChild] := by
    show List.orderedInsert (fun a b => compareTxIterByAncestorCount b a = false) shieldedParent [transparentChild] = _
    rw [List.orderedInsert_cons, if_pos (by decide +kernel)]
  have hrefused : addSorted (shieldedContext true) [shieldedParent, transparentChild]
      (stuckState.assembler, stuckState.mapModifiedTx) = (stuckState.assembler, stuckState.mapModifiedTx) :=
    addSorted_refused not_shieldedRoom_maintenance
  have hupdate : updatePackagesForAdded shieldedPool [shieldedParent, transparentChild] stuckState.mapModifiedTx =
      stuckState.mapModifiedTx := by
    simp only [updatePackagesForAdded, List.foldl_cons, List.foldl_nil, descendants_shieldedParent,
      descendants_transparentChild, updateDescendant, List.mem_cons, true_or, or_true, if_true]
  have hpasses : PackagePasses (shieldedContext true) shieldedPool stuckState transparentChild
      (withoutParent transparentChild shieldedParent none) := ⟨by decide +kernel, by decide +kernel⟩
  have hstate : withPackage (shieldedContext true) shieldedPool stuckState transparentChild = stuckState := by
    unfold withPackage
    dsimp only
    rw [hpackage, hsort, hrefused, hupdate]
  rw [packageStep_modified rfl bestModified_stuckState,
    considerPackage_passes (by decide +kernel) (by decide +kernel) hpasses, hstate]

end KrovaCoin
