import KrovaCoin.Wallet.CoinSelection

/-!
# Coin selection finds what there is (`wallet/wallet.cpp`)

`SelectCoinsMinConf` adds up values in `int64_t`. Where the eligible values are amounts whose sum fits, none of its sums
overflows, whatever the chance.

* `SearchInv.pass_total`, `approximateBestSubset_total` — the subset search ends without an overflow.

Principal result: `selectCoinsMinConf_exact`.
-/

namespace KrovaCoin

open Lib

/-! ## Sums of amounts -/

def AmountsOf (coins : List WalletCoin) : Prop := ∀ coin ∈ coins, 0 ≤ coin.nValue

theorem totalValue_nonneg {coins : List WalletCoin} (h : AmountsOf coins) : 0 ≤ totalValue coins := by
  apply List.sum_nonneg
  intro v hv
  obtain ⟨coin, hcoin, rfl⟩ := List.mem_map.mp hv
  exact h coin hcoin

theorem totalValue_sublist {coins coins' : List WalletCoin} (h : AmountsOf coins') (hsub : coins.Sublist coins') :
    totalValue coins ≤ totalValue coins' := by
  apply (hsub.map WalletCoin.nValue).sum_le_sum
  intro v hv
  obtain ⟨coin, hcoin, rfl⟩ := List.mem_map.mp hv
  exact h coin hcoin

theorem totalValue_subperm {coins coins' : List WalletCoin} (h : AmountsOf coins') (hsub : coins.Subperm coins') :
    totalValue coins ≤ totalValue coins' := by
  obtain ⟨l, hperm, hsublist⟩ := hsub
  rw [← totalValue_perm hperm]
  exact totalValue_sublist h hsublist

theorem AmountsOf.perm {coins coins' : List WalletCoin} (h : AmountsOf coins) (hperm : coins.Perm coins') :
    AmountsOf coins' :=
  fun coin hcoin => h coin (hperm.mem_iff.mpr hcoin)

theorem addValues_total : ∀ {coins : List WalletCoin} {n : Int}, AmountsOf coins → 0 ≤ n →
    n + totalValue coins ≤ INT64_MAX → ∃ m, addValues n coins = .ok m
  | [], n, _, _, _ => ⟨n, rfl⟩
  | coin :: coins, n, h, hn, hsum => by
    have hcoin := h coin List.mem_cons_self
    have hrest : AmountsOf coins := fun c hc => h c (List.mem_cons_of_mem _ hc)
    have hnonneg := totalValue_nonneg hrest
    rw [totalValue_cons] at hsum
    have hin : InInt64 (n + coin.nValue) := by
      unfold InInt64
      unfold INT64_MAX at hsum
      omega
    obtain ⟨m, hm⟩ := @addValues_total coins (n + coin.nValue) hrest (by omega) (by omega)
    refine ⟨m, ?_⟩
    rw [addValues, List.foldlM_cons, checkInt64_of hin]
    exact hm

/-! ## The subset search -/

section Search

variable {nTargetValue : Int} {vValue : List WalletCoin}

theorem SearchInv.includeCoin_total {s : SubsetSearch} (hs : SearchInv nTargetValue vValue s) {i : Nat}
    {coin : WalletCoin} (hcoin : vValue[i]? = some coin) (hfresh : s.vfIncluded[i]? = some false)
    (hamounts : AmountsOf vValue) (hsum : totalValue vValue ≤ INT64_MAX) :
    ∃ s', KrovaCoin.includeCoin nTargetValue s i coin.nValue = .ok s' := by
  have hsubset : ∀ flags, 0 ≤ totalValue (chosen vValue flags) ∧ totalValue (chosen vValue flags) ≤ INT64_MAX :=
    fun flags => ⟨totalValue_nonneg fun c hc => hamounts c ((chosen_sublist _ _).subset hc),
      (totalValue_sublist hamounts (chosen_sublist _ _)).trans hsum⟩
  have hadd : totalValue (chosen vValue (s.vfIncluded.set i true)) = s.nTotal + coin.nValue := by
    rw [hs.total]
    exact sum_chosen_set WalletCoin.nValue hcoin hfresh
  have hwith := hsubset (s.vfIncluded.set i true)
  have hwithout := hsubset s.vfIncluded
  rw [← hs.total] at hwithout
  unfold INT64_MAX at hwith hwithout
  have hin : InInt64 (s.nTotal + coin.nValue) := by
    unfold InInt64
    omega
  have hback : InInt64 (s.nTotal + coin.nValue - coin.nValue) := by
    unfold InInt64
    omega
  unfold KrovaCoin.includeCoin
  rw [checkInt64_of hin, ok_bind]
  split
  · rw [checkInt64_of hback, ok_bind]
    exact ⟨_, rfl⟩
  · exact ⟨_, rfl⟩

theorem SearchInv.pass_total {take : List Bool → Nat → Bool} {Fresh : List Bool → List (WalletCoin × Nat) → Prop}
    (hrule : FreshRule vValue take Fresh) (hamounts : AmountsOf vValue) (hsum : totalValue vValue ≤ INT64_MAX) :
    ∀ {rest : List (WalletCoin × Nat)} {s : SubsetSearch}, SearchInv nTargetValue vValue s →
      (∀ e ∈ rest, vValue[e.2]? = some e.1) → Fresh s.vfIncluded rest →
      ∃ s', subsetPass nTargetValue take rest s = .ok s'
  | [], s, _, _, _ => ⟨s, rfl⟩
  | (coin, i) :: rest, s, hs, hcoins, hfresh => by
    rw [List.forall_mem_cons] at hcoins
    rw [subsetPass]
    split
    · rename_i htaken
      have hflag := hrule.take hs.length hfresh htaken
      obtain ⟨s1, h1⟩ := hs.includeCoin_total hcoins.1 hflag hamounts hsum
      obtain ⟨hs1, b, hflags⟩ := hs.includeCoin hcoins.1 hflag h1
      have hfresh1 : Fresh s1.vfIncluded rest := by
        rw [hflags]
        exact hrule.set b hs.length hfresh
      rw [h1, ok_bind]
      exact SearchInv.pass_total hrule hamounts hsum hs1 hcoins.2 hfresh1
    · exact SearchInv.pass_total hrule hamounts hsum hs hcoins.2 (hrule.skip hfresh)

theorem subsetRound_total {randbool : Nat → Bool} {vfBest : List Bool} {nBest : Int} (hamounts : AmountsOf vValue)
    (hsum : totalValue vValue ≤ INT64_MAX) (hbest : nBest = totalValue (chosen vValue vfBest))
    (hreaches : nTargetValue ≤ nBest) : ∃ best, subsetRound nTargetValue vValue randbool vfBest nBest = .ok best := by
  have hstart := searchInv_start hbest hreaches
  obtain ⟨s1, h1⟩ := hstart.pass_total (freshOnce_rule randbool) hamounts hsum (fun e he => zipIdx_getElem? he)
    freshOnce_start
  have hs1 := hstart.pass (freshOnce_rule randbool) (fun e he => zipIdx_getElem? he) freshOnce_start h1
  obtain ⟨s2, h2⟩ := hs1.pass_total freshLeft_rule hamounts hsum (fun e he => zipIdx_getElem? he) (freshLeft_start _)
  rw [subsetRound, h1, ok_bind]
  split
  · exact ⟨_, rfl⟩
  · rw [h2]
    exact ⟨_, rfl⟩

theorem subsetRounds_total {randbool : Nat → Nat → Bool} (hamounts : AmountsOf vValue)
    (hsum : totalValue vValue ≤ INT64_MAX) : ∀ {left nRep : Nat} {vfBest : List Bool} {nBest : Int},
    nBest = totalValue (chosen vValue vfBest) → nTargetValue ≤ nBest →
    ∃ best, subsetRounds nTargetValue vValue randbool left nRep vfBest nBest = .ok best
  | 0, _, vfBest, nBest, _, _ => ⟨(vfBest, nBest), rfl⟩
  | left + 1, nRep, vfBest, nBest, hbest, hreaches => by
    rw [subsetRounds]
    split
    · exact ⟨_, rfl⟩
    · obtain ⟨⟨vf1, n1⟩, h1⟩ := @subsetRound_total _ _ (randbool nRep) _ _ hamounts hsum hbest hreaches
      obtain ⟨hbest1, hreaches1⟩ := subsetRound_inv hbest hreaches h1
      rw [h1, ok_bind]
      exact subsetRounds_total hamounts hsum hbest1 hreaches1

theorem approximateBestSubset_total {randbool : Nat → Nat → Bool} {nTotalLower : Int} (hamounts : AmountsOf vValue)
    (hsum : totalValue vValue ≤ INT64_MAX) (htotal : nTotalLower = totalValue vValue)
    (hreaches : nTargetValue ≤ nTotalLower) :
    ∃ best, approximateBestSubset nTargetValue vValue randbool nTotalLower = .ok best :=
  subsetRounds_total hamounts hsum (by rw [chosen_true, htotal]) hreaches

/-- The states of `ApproximateBestSubset` between two steps: in repetition `n`, after `k` coins of the first or of the
    second pass. -/
inductive SearchState (nTargetValue : Int) (vValue : List WalletCoin) (randbool : Nat → Nat → Bool)
    (nTotalLower : Int) : SubsetSearch → Prop
  | first (n k : Nat) {vfBest : List Bool} {nBest : Int} {s : SubsetSearch} :
      subsetRounds nTargetValue vValue randbool n 0 (List.replicate vValue.length true) nTotalLower =
        .ok (vfBest, nBest) →
      subsetPass nTargetValue (fun _ i => randbool n i) (vValue.zipIdx.take k)
        ⟨0, List.replicate vValue.length false, false, vfBest, nBest⟩ = .ok s →
      SearchState nTargetValue vValue randbool nTotalLower s
  | second (n k : Nat) {vfBest : List Bool} {nBest : Int} {s1 s : SubsetSearch} :
      subsetRounds nTargetValue vValue randbool n 0 (List.replicate vValue.length true) nTotalLower =
        .ok (vfBest, nBest) →
      subsetPass nTargetValue (fun _ i => randbool n i) vValue.zipIdx
        ⟨0, List.replicate vValue.length false, false, vfBest, nBest⟩ = .ok s1 →
      subsetPass nTargetValue (fun vfIncluded i => !vfIncluded.getD i false) (vValue.zipIdx.take k) s1 = .ok s →
      SearchState nTargetValue vValue randbool nTotalLower s

/-- The best subset of every state of a search has the value `nBest`, and reaches the target. -/
theorem SearchState.best {randbool : Nat → Nat → Bool} {nTotalLower : Int} {s : SubsetSearch}
    (htotal : nTotalLower = totalValue vValue) (hreaches : nTargetValue ≤ nTotalLower)
    (h : SearchState nTargetValue vValue randbool nTotalLower s) :
    s.nBest = totalValue (chosen vValue s.vfBest) ∧ nTargetValue ≤ s.nBest := by
  have hrounds : ∀ {n vfBest nBest}, subsetRounds nTargetValue vValue randbool n 0
      (List.replicate vValue.length true) nTotalLower = .ok (vfBest, nBest) →
      SearchInv nTargetValue vValue ⟨0, List.replicate vValue.length false, false, vfBest, nBest⟩ := by
    intro n vfBest nBest h
    obtain ⟨hbest, hreach⟩ := subsetRounds_inv (by rw [chosen_true, htotal]) hreaches h
    exact searchInv_start hbest hreach
  have htake : ∀ k, ∀ e ∈ vValue.zipIdx.take k, vValue[e.2]? = some e.1 :=
    fun k e he => zipIdx_getElem? (List.mem_of_mem_take he)
  cases h with
  | first n k hround hpass =>
    have hfresh : FreshOnce (List.replicate vValue.length false) (vValue.zipIdx.take k) := by
      obtain ⟨hnodup, hflags⟩ := @freshOnce_start vValue
      rw [FreshOnce, List.map_take]
      exact ⟨hnodup.sublist (List.take_sublist _ _), fun e he => hflags e (List.mem_of_mem_take he)⟩
    have hs := (hrounds hround).pass (freshOnce_rule (randbool n)) (htake k) hfresh hpass
    exact ⟨hs.best, hs.reaches⟩
  | second n k hround hfirst hpass =>
    have hs1 := (hrounds hround).pass (freshOnce_rule (randbool n)) (fun e he => zipIdx_getElem? he) freshOnce_start
      hfirst
    have hs := hs1.pass freshLeft_rule (htake k) (fun e he => freshLeft_start [] e (List.mem_of_mem_take he)) hpass
    exact ⟨hs.best, hs.reaches⟩

theorem searchSubsets_total {r : CoinRandomness} {nTotalLower : Int} (hamounts : AmountsOf vValue)
    (hsum : totalValue vValue ≤ INT64_MAX) (hlimit : InInt64 (nTargetValue + MIN_CHANGE))
    (htotal : nTotalLower = totalValue vValue) (hreaches : nTargetValue ≤ nTotalLower) :
    ∃ best, searchSubsets nTargetValue r vValue nTotalLower = .ok best := by
  obtain ⟨⟨vf1, n1⟩, h1⟩ := @approximateBestSubset_total _ _ r.randbool _ hamounts hsum htotal hreaches
  rw [searchSubsets, h1, ok_bind]
  dsimp only
  split
  · exact ⟨_, rfl⟩
  · rw [checkInt64_of hlimit, ok_bind]
    split
    · rename_i hroom
      exact approximateBestSubset_total hamounts hsum htotal hroom
    · exact ⟨_, rfl⟩

/-! ## `SelectCoinsMinConf` -/

theorem chooseBest_total {larger? : Option WalletCoin} {vfBest : List Bool} {nBest : Int} (hamounts : AmountsOf vValue)
    (hsum : totalValue vValue ≤ INT64_MAX) (hlimit : InInt64 (nTargetValue + MIN_CHANGE)) :
    ∃ found, chooseBest nTargetValue vValue larger? vfBest nBest = .ok found := by
  obtain ⟨m, hm⟩ : ∃ m, addValues 0 (chosen vValue vfBest) = .ok m := by
    refine addValues_total (fun c hc => hamounts c ((chosen_sublist _ _).subset hc)) le_rfl ?_
    rw [zero_add]
    exact (totalValue_sublist hamounts (chosen_sublist _ _)).trans hsum
  unfold chooseBest
  rw [hm]
  cases larger? with
  | none => exact ⟨_, rfl⟩
  | some larger =>
    dsimp only
    rw [checkInt64_of hlimit, ok_bind]
    split
    · exact ⟨_, rfl⟩
    · exact ⟨_, rfl⟩

/-- The loop over eligible coins ends; without a larger coin every coin has been gathered. -/
theorem scanCoins_total {eligible : COutput → Bool} (hlimit : InInt64 (nTargetValue + MIN_CHANGE)) :
    ∀ {rest : List COutput} {s : CoinScan}, (∀ out ∈ rest, eligible out = true) →
      AmountsOf (rest.map COutput.toWalletCoin) → 0 ≤ s.nTotalLower →
      s.nTotalLower + totalValue (rest.map COutput.toWalletCoin) < INT64_MAX →
      ∃ r, scanCoins nTargetValue eligible rest s = .ok r ∧ ∀ s', r = .inr s' → s'.coinLowestLarger = none →
        s.coinLowestLarger = none ∧ s'.vValue = s.vValue ++ rest.map COutput.toWalletCoin
  | [], s, _, _, _, _ => by
    refine ⟨.inr s, rfl, fun s' hs' hnone => ?_⟩
    cases hs'
    exact ⟨hnone, (List.append_nil _).symm⟩
  | output :: rest, s, helig, hamounts, hlower, hsum => by
    rw [List.forall_mem_cons] at helig
    have hcoin : 0 ≤ output.nValue := hamounts _ List.mem_cons_self
    have hrest : AmountsOf (rest.map COutput.toWalletCoin) := fun c hc => hamounts c (List.mem_cons_of_mem _ hc)
    have hnonneg := totalValue_nonneg hrest
    rw [List.map_cons, totalValue_cons] at hsum
    unfold scanCoins
    rw [if_neg (by simp [helig.1])]
    split
    · exact ⟨_, rfl, fun _ hs' => by cases hs'⟩
    rw [checkInt64_of hlimit, ok_bind]
    split
    · have hin : InInt64 (s.nTotalLower + output.nValue) := by
        unfold InInt64
        unfold INT64_MAX at hsum
        omega
      rw [checkInt64_of hin, ok_bind]
      obtain ⟨r, hr, hgathered⟩ := scanCoins_total hlimit
        (s := { s with vValue := s.vValue ++ [output.toWalletCoin], nTotalLower := s.nTotalLower + output.nValue })
        helig.2 hrest (by dsimp only; omega) (by dsimp only; omega)
      refine ⟨r, hr, fun s' hs' hnone => ?_⟩
      obtain ⟨hlarger, hvalues⟩ := hgathered s' hs' hnone
      refine ⟨hlarger, ?_⟩
      rw [hvalues, List.append_assoc, List.map_cons, List.singleton_append]
    · -- a larger coin stays: the first one is below the initial value, and later ones replace it by a coin
      have hlarger : ∀ s1 : CoinScan, s1.nTotalLower = s.nTotalLower → s1.coinLowestLarger ≠ none →
          ∃ r, scanCoins nTargetValue eligible rest s1 = .ok r ∧ ∀ s', r = .inr s' → s'.coinLowestLarger = none →
            s.coinLowestLarger = none ∧ s'.vValue = s.vValue ++ (output :: rest).map COutput.toWalletCoin := by
        intro s1 hs1 hsome
        obtain ⟨r, hr, hgathered⟩ := scanCoins_total hlimit (s := s1) helig.2 hrest (by omega) (by omega)
        exact ⟨r, hr, fun s' hs' hnone => absurd (hgathered s' hs' hnone).1 hsome⟩
      split
      · exact hlarger _ rfl (by simp)
      · rename_i hnot
        refine hlarger s rfl fun hnone => hnot ?_
        rw [hnone]
        unfold INT64_MAX at hsum
        show output.nValue < 9223372036854775807
        omega

theorem selectCoinsMinConf_total {r : CoinRandomness} {nConfMine nConfTheirs : Int} {nMaxAncestors : Nat}
    {vCoins eligible : List COutput}
    (heligible : eligible = vCoins.filter (COutput.eligible nConfMine nConfTheirs nMaxAncestors))
    (hamounts : AmountsOf (eligible.map COutput.toWalletCoin)) (hlimit : InInt64 (nTargetValue + MIN_CHANGE))
    (hsum : totalValue (eligible.map COutput.toWalletCoin) < INT64_MAX) :
    ∃ result, selectCoinsMinConf nTargetValue r nConfMine nConfTheirs nMaxAncestors vCoins = .ok result ∧
      (result = none → totalValue (eligible.map COutput.toWalletCoin) < nTargetValue) := by
  have hperm : (((r.shuffle vCoins).filter (COutput.eligible nConfMine nConfTheirs nMaxAncestors)).map
      COutput.toWalletCoin).Perm (eligible.map COutput.toWalletCoin) := by
    rw [heligible]
    exact ((r.perm vCoins).filter _).map _
  obtain ⟨scan, hscan, hgathered⟩ := scanCoins_total (s := ⟨[], 0, none⟩) hlimit
    (fun out hout => (List.mem_filter.mp hout).2) (hamounts.perm hperm.symm) le_rfl
    (by rw [zero_add, totalValue_perm hperm]; exact hsum)
  rw [← scanCoins_filter] at hscan
  rw [selectCoinsMinConf, hscan, ok_bind]
  cases scan with
  | inl coin => exact ⟨_, rfl, fun hnone => by cases hnone⟩
  | inr s =>
    rw [scanCoins_filter] at hscan
    obtain ⟨hsublist, htotal, -⟩ := (scanCoins_inv scanInv_start hscan).2 s rfl
    have hvalues : AmountsOf s.vValue := fun c hc => hamounts c (hperm.subset (hsublist.subset hc))
    have hvaluesSum : totalValue s.vValue ≤ INT64_MAX :=
      ((totalValue_sublist (hamounts.perm hperm.symm) hsublist).trans (totalValue_perm hperm).le).trans hsum.le
    dsimp only
    split
    · obtain ⟨m, hm⟩ := addValues_total hvalues le_rfl (by rw [zero_add]; exact hvaluesSum)
      rw [hm]
      exact ⟨_, rfl, fun hnone => by cases hnone⟩
    split
    · rename_i hbelow
      refine ⟨_, rfl, fun hnone => ?_⟩
      obtain ⟨-, hall⟩ := hgathered s rfl (Option.map_eq_none_iff.mp hnone)
      rw [List.nil_append] at hall
      rw [← totalValue_perm hperm, ← hall, ← htotal]
      exact hbelow
    · rename_i hreaches
      have hsort := List.mergeSort_perm s.vValue fun a b => decide (b.nValue ≤ a.nValue)
      have hsorted := hvalues.perm hsort.symm
      have hsortedSum : totalValue (s.vValue.mergeSort fun a b => decide (b.nValue ≤ a.nValue)) ≤ INT64_MAX := by
        rw [totalValue_perm hsort]
        exact hvaluesSum
      obtain ⟨⟨vfBest, nBest⟩, hsearch⟩ := searchSubsets_total (r := r) hsorted hsortedSum hlimit
        (htotal.trans (totalValue_perm hsort).symm) (Int.not_lt.mp hreaches)
      obtain ⟨found, hfound⟩ := @chooseBest_total _ _ s.coinLowestLarger vfBest nBest hsorted hsortedSum hlimit
      rw [hsearch, ok_bind, hfound]
      exact ⟨_, rfl, fun hnone => by cases hnone⟩

end Search

/-- **Coin selection is sound and complete for every random choice.** Where the eligible outputs are amounts that add up
    within `int64_t`, `SelectCoinsMinConf` returns coins exactly if the eligible outputs reach the target; they are
    distinct eligible outputs, and the value returned is their sum and reaches the target. In every state of
    `ApproximateBestSubset` the best value is the sum of the flagged coins, and reaches its target. -/
theorem selectCoinsMinConf_exact (nTargetValue : Int) (r : CoinRandomness) (nConfMine nConfTheirs : Int)
    (nMaxAncestors : Nat) (vCoins eligible : List COutput)
    (heligible : eligible = vCoins.filter (COutput.eligible nConfMine nConfTheirs nMaxAncestors))
    (hdistinct : (vCoins.map COutput.toWalletCoin).Nodup) (htarget : 0 < nTargetValue)
    (hamounts : ∀ out ∈ eligible, 0 ≤ out.nValue)
    (hsum : totalValue (eligible.map COutput.toWalletCoin) < INT64_MAX) (hlimit : nTargetValue + MIN_CHANGE ≤ INT64_MAX) :
    (∃ result, selectCoinsMinConf nTargetValue r nConfMine nConfTheirs nMaxAncestors vCoins = .ok result ∧
      (result.isSome ↔ nTargetValue ≤ totalValue (eligible.map COutput.toWalletCoin)) ∧
      ∀ coins nValueRet, result = some (coins, nValueRet) →
        coins.Nodup ∧ (∀ coin ∈ coins, ∃ out ∈ eligible, out.toWalletCoin = coin) ∧
          nValueRet = totalValue coins ∧ nTargetValue ≤ nValueRet) ∧
    ∀ (nSearchTarget : Int) (vValue : List WalletCoin) (randbool : Nat → Nat → Bool) (s : SubsetSearch),
      nSearchTarget ≤ totalValue vValue →
      SearchState nSearchTarget vValue randbool (totalValue vValue) s →
        s.nBest = totalValue (chosen vValue s.vfBest) ∧ nSearchTarget ≤ s.nBest := by
  refine ⟨?_, fun _ _ _ _ hreaches hstate => hstate.best rfl hreaches⟩
  have hall : AmountsOf (eligible.map COutput.toWalletCoin) := by
    intro coin hcoin
    obtain ⟨out, hout, rfl⟩ := List.mem_map.mp hcoin
    exact hamounts out hout
  have hrange : InInt64 (nTargetValue + MIN_CHANGE) := by
    unfold InInt64
    unfold MIN_CHANGE INT64_MAX at *
    omega
  obtain ⟨result, hresult, hnone⟩ := selectCoinsMinConf_total heligible hall hrange hsum
  have hsound : ∀ {coins nValueRet}, result = some (coins, nValueRet) →
      coins.Subperm (eligible.map COutput.toWalletCoin) ∧ nValueRet = totalValue coins ∧ nTargetValue ≤ nValueRet := by
    rintro coins nValueRet rfl
    rw [heligible]
    exact selectCoinsMinConf_eligible hresult
  have hnodup : (eligible.map COutput.toWalletCoin).Nodup := by
    rw [heligible]
    exact hdistinct.sublist (List.filter_sublist.map _)
  refine ⟨result, hresult, ⟨fun hsome => ?_, fun hreaches => ?_⟩, fun coins nValueRet hfound => ?_⟩
  · obtain ⟨⟨coins, nValueRet⟩, hfound⟩ := Option.isSome_iff_exists.mp hsome
    obtain ⟨hsub, hvalue, hreaches⟩ := hsound hfound
    exact (hvalue ▸ hreaches).trans (totalValue_subperm hall hsub)
  · rw [← Option.ne_none_iff_isSome]
    intro hfalse
    exact absurd (hnone hfalse) (not_lt.mpr hreaches)
  · obtain ⟨hsub, hvalue, hreaches⟩ := hsound hfound
    obtain ⟨l, hperm, hsublist⟩ := id hsub
    exact ⟨hperm.nodup_iff.mp (hnodup.sublist hsublist), fun coin hcoin => List.mem_map.mp (hsub.subset hcoin), hvalue, hreaches⟩

def sampleOutput (hash : Uint256) (nValue : Int) : COutput :=
  ⟨⟨⟨hash, 1, 0, [], [⟨nValue, [0x51]⟩], 0, none, none⟩, 0, Nat.zero_lt_one⟩, 10, true, true, none⟩

theorem twoOutputs_selected : totalValue ([sampleOutput 1 500, sampleOutput 2 300].map COutput.toWalletCoin) = 800 ∧
      ∀ r, ∃ result, selectCoinsMinConf 700 r 1 6 0 [sampleOutput 1 500, sampleOutput 2 300] = .ok result ∧
        result.isSome = true := by
  refine ⟨by decide +kernel, fun r => ?_⟩
  obtain ⟨⟨result, hresult, hiff, -⟩, -⟩ := selectCoinsMinConf_exact 700 r 1 6 0
    [sampleOutput 1 500, sampleOutput 2 300] [sampleOutput 1 500, sampleOutput 2 300] rfl (by decide +kernel) (by decide)
    (by decide +kernel) (by decide +kernel) (by decide)
  exact ⟨result, hresult, hiff.mpr (by decide +kernel)⟩

def calmOrder : CoinRandomness := ⟨id, List.Perm.refl, fun _ _ => true, fun _ _ => true⟩

theorem selectCoinsMinConf_overflow : mainParams.moneyRange 5000000000000000000 = true ∧
    totalValue ([sampleOutput 1 5000000000000000000, sampleOutput 2 5000000000000000000].map COutput.toWalletCoin) =
      10000000000000000000 ∧
    selectCoinsMinConf 6000000000000000000 calmOrder 1 6 0
      [sampleOutput 1 5000000000000000000, sampleOutput 2 5000000000000000000] = .error .overflow := by
  refine ⟨by decide, by decide +kernel, ?_⟩
  rfl

end KrovaCoin
