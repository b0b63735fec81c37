import KrovaCoin.Consensus.Superblock

/-!
# Tallies and the chain they are taken from (`consensus/superblock.cpp`)

`TallyStakersInCycle` reads the blocks of `chainActive`, whatever block is being validated.

* `tallyBefore_congr` — two chains with the same stakers have the same tally.
* `buildSuperblockPayoutOutputs_single` — a chain with one staker forces an output to them.
-/

namespace KrovaCoin.Superblock

open Lib

/-! ## Stakers and tallies -/

variable {chain : Int → Option CBlock} {p : Params}

variable {chain' : Int → Option CBlock}

theorem tallyLoop_congr : ∀ (n : Nat) (h : Int) (t : StakerTally),
    (∀ i, h ≤ i → i < h + n → (chain i).bind stakerOf = (chain' i).bind stakerOf) →
      tallyLoop chain n h t = tallyLoop chain' n h t := by
  intro n
  induction n with
  | zero =>
    intro h t _
    rfl
  | succ n ih =>
    intro h t hsame
    unfold tallyLoop
    rw [hsame h (by omega) (by omega)]
    cases (chain' h).bind stakerOf with
    | none => exact ih (h + 1) t fun i hi hi' => hsame i (by omega) (by omega)
    | some staker => exact ih (h + 1) (t.bump staker) fun i hi hi' => hsame i (by omega) (by omega)

variable {nHeight : Int}

theorem tallyBefore_congr (hsame : ∀ i, 1 ≤ i → i < nHeight → (chain i).bind stakerOf = (chain' i).bind stakerOf) :
    tallyBefore p chain nHeight = tallyBefore p chain' nHeight := by
  apply tallyLoop_congr
  intro i hi hi'
  apply hsame i
  · split at hi <;> omega
  · split at hi' <;> omega

variable {staker : CScript}

theorem tallyLoop_single : ∀ (n : Nat) (h k : Int)
    (t : StakerTally), (∀ i, h ≤ i → i < h + n → (chain i).bind stakerOf = some staker) →
      t.entries = [(staker, k)] → (tallyLoop chain n h t).entries = [(staker, k + n)] := by
  intro n
  induction n with
  | zero =>
    intro h k t _ ht
    simpa [tallyLoop] using ht
  | succ n ih =>
    intro h k t hall ht
    unfold tallyLoop
    rw [hall h (by omega) (by omega)]
    have hbump : (t.bump staker).entries = [(staker, k + 1)] := by
      simp [StakerTally.bump, ht, bump]
    have hrest := ih (h + 1) (k + 1) (t.bump staker) (fun i hi hi' => hall i (by omega) (by omega)) hbump
    rw [hrest]
    congr 2
    omega

theorem tallyBefore_single (hcycle : 0 < p.nBudgetCycleBlocks) (hheight : 1 < nHeight)
    (hall : ∀ i, 1 ≤ i → i < nHeight → (chain i).bind stakerOf = some staker) :
    ∃ k, 0 < k ∧ (tallyBefore p chain nHeight).entries = [(staker, k)] := by
  unfold tallyBefore tallyStakersInCycle
  dsimp only
  have hstart : 1 ≤ (if nHeight - 1 - p.nBudgetCycleBlocks + 1 < 1 then 1
      else nHeight - 1 - p.nBudgetCycleBlocks + 1) := by
    split <;> omega
  have hend : (if nHeight - 1 - p.nBudgetCycleBlocks + 1 < 1 then 1
      else nHeight - 1 - p.nBudgetCycleBlocks + 1) < nHeight := by
    split <;> omega
  generalize (if nHeight - 1 - p.nBudgetCycleBlocks + 1 < 1 then 1
      else nHeight - 1 - p.nBudgetCycleBlocks + 1) = start at hstart hend ⊢
  obtain ⟨n, hn⟩ : ∃ n : Nat, (nHeight - 1 - start + 1).toNat = n + 1 :=
    ⟨(nHeight - 1 - start).toNat, by omega⟩
  rw [hn]
  refine ⟨1 + n, by omega, ?_⟩
  unfold tallyLoop
  rw [hall start hstart hend]
  exact tallyLoop_single n (start + 1) 1 _ (fun i hi hi' => hall i (by omega) (by omega)) rfl

theorem totalOf_tallyBefore_le (chain : Int → Option CBlock) (hcycle : 0 ≤ p.nBudgetCycleBlocks)
    (hheight : 0 ≤ nHeight) : totalOf (tallyBefore p chain nHeight).entries ≤ p.nBudgetCycleBlocks ∧
      totalOf (tallyBefore p chain nHeight).entries ≤ nHeight := by
  have hempty : totalOf StakerTally.empty.entries = 0 := rfl
  unfold tallyBefore tallyStakersInCycle
  dsimp only
  generalize hstart : (if nHeight - 1 - p.nBudgetCycleBlocks + 1 < 1 then 1
      else nHeight - 1 - p.nBudgetCycleBlocks + 1) = start
  have hle := tallyLoop_total_le chain (nHeight - 1 - start + 1).toNat start .empty
  split at hstart
  · constructor <;> omega
  · constructor <;> omega

theorem length_le_totalOf : ∀ {tally : Tally}, (∀ e ∈ tally, 0 < e.2) → (tally.length : Int) ≤ totalOf tally := by
  intro tally
  induction tally with
  | nil => simp
  | cons e rest ih =>
    intro h
    have he := h e List.mem_cons_self
    have hrest := ih fun e he => h e (List.mem_cons_of_mem _ he)
    rw [List.length_cons, totalOf_cons]
    omega

variable {e : CScript × Int}

theorem mem_tallyLoop : ∀ (n : Nat) (h : Int) (t : StakerTally), e ∈ (tallyLoop chain n h t).entries →
      (∃ i block, chain i = some block ∧ stakerOf block = some e.1) ∨ ∃ e' ∈ t.entries, e'.1 = e.1 := by
  intro n
  induction n with
  | zero =>
    intro h t he
    exact .inr ⟨e, he, rfl⟩
  | succ n ih =>
    intro h t he
    unfold tallyLoop at he
    split at he
    · exact ih (h + 1) t he
    · rename_i staker hstaker
      obtain ⟨block, hblock, hof⟩ := Option.bind_eq_some_iff.mp hstaker
      rcases ih (h + 1) (t.bump staker) he with hfound | ⟨e', he', heq⟩
      · exact .inl hfound
      · rcases mem_bump he' with hnew | ⟨e'', he'', heq'⟩
        · left
          refine ⟨h, block, hblock, ?_⟩
          rw [hof, ← heq, hnew]
        · exact .inr ⟨e'', he'', heq'.trans heq⟩

theorem mem_tallyBefore (h : e ∈ (tallyBefore p chain nHeight).entries) :
    ∃ i block, chain i = some block ∧ stakerOf block = some e.1 := by
  rcases mem_tallyLoop _ _ _ h with hfound | ⟨e', he', -⟩
  · exact hfound
  · cases he'

/-! ## The outputs of a payout -/

/-- The outputs of a payout from a coin of the given value: the shares, and the change. -/
def payoutOutputs (t : StakerTally) (payout value : Int) (poolScriptPubKey : CScript) : List CTxOut :=
  let payments := paymentsOf (min payout value) (totalOf t.entries) t.entries
  payments ++ if value - valueOf payments > 0 then [⟨value - valueOf payments, poolScriptPubKey⟩] else []

section Outputs

variable {t : StakerTally} {payout value : Int} {poolScriptPubKey : CScript}

theorem mem_payoutOutputs {out : CTxOut} (h : out ∈ payoutOutputs t payout value poolScriptPubKey) :
    0 < out.nValue ∧ ((∃ e ∈ t.entries, out = ⟨shareOf (min payout value) (totalOf t.entries) e, e.1⟩) ∨
      out.scriptPubKey = poolScriptPubKey) := by
  rcases List.mem_append.mp h with hpayment | hchange
  · obtain ⟨e, he, rfl⟩ := List.mem_map.mp hpayment
    obtain ⟨hmem, hpos⟩ := List.mem_filter.mp he
    exact ⟨of_decide_eq_true hpos, .inl ⟨e, hmem, rfl⟩⟩
  · split at hchange
    · rename_i hpos
      rw [List.mem_singleton] at hchange
      subst hchange
      exact ⟨hpos, .inr rfl⟩
    · cases hchange

theorem share_mem_payoutOutputs {e : CScript × Int} (he : e ∈ t.entries)
    (hpos : 0 < shareOf (min payout value) (totalOf t.entries) e) :
    ⟨shareOf (min payout value) (totalOf t.entries) e, e.1⟩ ∈ payoutOutputs t payout value poolScriptPubKey := by
  apply List.mem_append_left
  exact List.mem_map.mpr ⟨e, List.mem_filter.mpr ⟨he, decide_eq_true hpos⟩, rfl⟩

theorem valueOf_payoutOutputs (hne : t.entries ≠ []) (hpayout : 0 < payout) (hvalue : 0 ≤ value) :
    valueOf (payoutOutputs t payout value poolScriptPubKey) = value := by
  have hle := paymentsOf_value_le (show 0 ≤ min payout value by omega) t.positive (StakerTally.total_pos hne)
  unfold payoutOutputs
  generalize paymentsOf (min payout value) (totalOf t.entries) t.entries = payments at hle ⊢
  rw [valueOf, List.map_append, List.sum_append]
  show valueOf payments + _ = value
  split
  · simp only [List.map_cons, List.map_nil, List.sum_cons, List.sum_nil]
    omega
  · simp only [List.map_nil, List.sum_nil]
    omega

theorem payoutOutputs_eq_nil (hne : t.entries ≠ []) (hpayout : 0 < payout) (hvalue : 0 ≤ value) :
    payoutOutputs t payout value poolScriptPubKey = [] ↔ value = 0 := by
  have hsum := @valueOf_payoutOutputs t payout value poolScriptPubKey hne hpayout hvalue
  constructor
  · intro h
    rw [h, valueOf_nil] at hsum
    exact hsum.symm
  · rintro rfl
    have hmin : min payout 0 = 0 := by omega
    simp [payoutOutputs, paymentsOf, shareOf, hmin]

theorem length_payoutOutputs_le : (payoutOutputs t payout value poolScriptPubKey).length ≤ t.entries.length + 1 := by
  unfold payoutOutputs paymentsOf
  rw [List.length_append, List.length_map]
  have hfilter := List.length_filter_le
    (fun e => decide (0 < shareOf (min payout value) (totalOf t.entries) e)) t.entries
  split
  · rw [List.length_singleton]
    omega
  · rw [List.length_nil]
    omega

end Outputs

variable {poolScriptPubKey : CScript}

/-- **What `BuildSuperblockPayoutOutputs` computes** where something is to be paid. -/
theorem buildSuperblockPayoutOutputs_eq {payout value : Int} (hne : (tallyBefore p chain nHeight).entries ≠ [])
    (hpayout : getSuperblockPayout p nHeight = .ok payout) (hpos : 0 < payout)
    (hvalue : 0 ≤ value ∧ value ≤ 9223372036854775807)
    (htotal : totalOf (tallyBefore p chain nHeight).entries ≤ 2147483647) :
    buildSuperblockPayoutOutputs p chain nHeight poolScriptPubKey value = .ok (if value = 0 then none
        else some (payoutOutputs (tallyBefore p chain nHeight) payout value poolScriptPubKey)) := by
  have hcompute : computeSuperblockDistribution (tallyBefore p chain nHeight).entries payout value
      poolScriptPubKey = .ok (payoutOutputs (tallyBefore p chain nHeight) payout value poolScriptPubKey) := by
    unfold computeSuperblockDistribution
    rw [distribute_min hne hpos hvalue htotal]
    rfl
  have hempty := @payoutOutputs_eq_nil (tallyBefore p chain nHeight) payout value poolScriptPubKey hne hpos hvalue.1
  unfold buildSuperblockPayoutOutputs
  rw [if_neg (by rwa [List.isEmpty_iff]), hpayout, ok_bind, if_neg (by omega), hcompute, ok_bind]
  simp only [List.isEmpty_iff, hempty]
  rfl

/-! ## A single staker -/

variable {k : Int}

theorem mulDivShare_self {a r : Int} (h : mulDivShare k a k = .ok r) : r = a := by
  simp only [mulDivShare, bind_eq_ok, ensure_eq_ok, decide_eq_true_eq, pure_eq_ok] at h
  obtain ⟨_, ⟨-, -, hk⟩, product, hproduct, _, -, rfl⟩ := h
  rw [checkInt128_eq_ok hproduct]
  exact Int.mul_tdiv_cancel_left a (by omega)

/-- A single staker gets the whole payout, and without a payout there are no outputs. -/
theorem computeSuperblockDistribution_single {target pool : Int} {outs : List CTxOut} (htarget : 0 < target)
    (h : computeSuperblockDistribution [(staker, k)] target pool poolScriptPubKey = .ok outs) :
    outs = [] ∨ ∃ out ∈ outs, out.scriptPubKey = staker := by
  obtain ⟨r, hr, h⟩ := bind_eq_ok.mp h
  cases r with
  | none => exact .inl (pure_eq_ok.mp h).symm
  | some d =>
    have hout := pure_eq_ok.mp h
    rw [distribute, if_neg (by simp; omega)] at hr
    obtain ⟨total, htotal, hr⟩ := bind_eq_ok.mp hr
    have hk : total = k := by
      simp only [totalBlocksLoop, bind_eq_ok, Except.ok.injEq] at htotal
      obtain ⟨t, ht, rfl⟩ := htotal
      rw [checkInt32_eq_ok ht, Int.zero_add]
    subst hk
    split at hr
    · cases hr
    · generalize hclamp : (if target > pool then pool else target) = clamped at hr
      obtain ⟨⟨payments, distributed⟩, hloop, hr⟩ := bind_eq_ok.mp hr
      simp only [bind_eq_ok, ensure_eq_ok, pure_eq_ok, Option.some.injEq] at hr
      obtain ⟨_, -, _, -, change, hchange, rfl⟩ := hr
      have hchange' := checkInt64_eq_ok hchange
      simp only [shareLoop, bind_eq_ok] at hloop
      obtain ⟨share, hshare, hloop⟩ := hloop
      have hshare' := mulDivShare_self hshare
      split at hloop
      · -- nothing is paid: the pool is empty, and there is no change either
        cases hloop
        left
        rw [← hout, List.nil_append, if_neg]
        split at hclamp <;> (dsimp only; omega)
      · right
        obtain ⟨sum, -, hloop⟩ := bind_eq_ok.mp hloop
        cases hloop
        refine ⟨⟨share, staker⟩, ?_, rfl⟩
        rw [← hout]
        simp

theorem buildSuperblockPayoutOutputs_single {pool : Int} {expected : List CTxOut}
    (htally : (tallyBefore p chain nHeight).entries = [(staker, k)])
    (h : buildSuperblockPayoutOutputs p chain nHeight poolScriptPubKey pool = .ok (some expected)) :
    ∃ out ∈ expected, out.scriptPubKey = staker := by
  simp only [buildSuperblockPayoutOutputs, htally, List.isEmpty_cons, Bool.false_eq_true, if_false, bind_eq_ok] at h
  obtain ⟨target, -, h⟩ := h
  split at h
  · cases h
  · obtain ⟨outs, houts, h⟩ := bind_eq_ok.mp h
    split at h
    · cases h
    · rename_i hne
      cases h
      rcases computeSuperblockDistribution_single (by omega) houts with rfl | hout
      · exact absurd rfl hne
      · exact hout

/-! ## The end of the schedule -/

theorem isSuperblockHeight_ok (h : isSuperblockHeight p nHeight = true) :
    getFirstSuperblockHeight p = p.nActivationHeight .UPGRADE_POS ∧ 0 ≤ getFirstSuperblockHeight p ∧
      getFirstSuperblockHeight p ≤ nHeight ∧ 0 < p.nBudgetCycleBlocks := by
  simp only [isSuperblockHeight] at h
  split at h
  · cases h
  · rename_i hfirst
    split at h
    · cases h
    · refine ⟨?_, by omega, by omega, by omega⟩
      unfold getFirstSuperblockHeight at hfirst ⊢
      dsimp only at hfirst ⊢
      split
      · omega
      · rfl

theorem cumulativeTarget_sub_ge (h0 : 0 ≤ k) (h : k < 7300) :
    1440 * COIN ≤ cumulativeTarget k - cumulativeTarget (k - 1) := by
  show 144000000000 ≤ _
  unfold cumulativeTarget
  split_ifs <;> omega

/-- After the last cycle of the schedule there is nothing to pay, and before it there is. -/
theorem getSuperblockPayout_eq (hheight : nHeight < 9223372036854775807) (h : isSuperblockHeight p nHeight = true) :
    ∃ payout, getSuperblockPayout p nHeight = .ok payout ∧
      (0 < payout ↔ getSuperblockCycleIndex p nHeight < 7300) ∧ 0 ≤ payout ∧ (0 < payout → 1440 * COIN ≤ payout) := by
  have hindex : 0 ≤ getSuperblockCycleIndex p nHeight ∧ getSuperblockCycleIndex p nHeight ≤ nHeight := by
    obtain ⟨-, hfirst, hle, hcycle⟩ := isSuperblockHeight_ok h
    unfold getSuperblockCycleIndex
    constructor
    · exact Int.tdiv_nonneg (by omega) (by omega)
    · have := Int.tdiv_le_self p.nBudgetCycleBlocks (show 0 ≤ nHeight - getFirstSuperblockHeight p by omega)
      omega
  have hmono := cumulativeTarget_mono
    (show getSuperblockCycleIndex p nHeight - 1 ≤ getSuperblockCycleIndex p nHeight by omega)
  have hpos : 0 < cumulativeTarget (getSuperblockCycleIndex p nHeight) -
      cumulativeTarget (getSuperblockCycleIndex p nHeight - 1) ↔ getSuperblockCycleIndex p nHeight < 7300 := by
    unfold cumulativeTarget
    split_ifs <;> omega
  refine ⟨_, by rw [getSuperblockPayout, if_pos h, payoutOfCycle_eq hindex.1 (by unfold InInt64; omega)], hpos,
    by omega, ?_⟩
  intro hpaid
  exact cumulativeTarget_sub_ge hindex.1 (hpos.mp hpaid)

end KrovaCoin.Superblock
