import KrovaCoin.Validation.SuperblockPayout

/-!
# The canonical payout (`consensus/superblock.cpp`)

* `le_mul_paymentsOf_value`, `undistributed_lt` — what rounding down leaves.
* `computeSuperblockDistribution_eq` — the outputs of a distribution.

Principal result: `superblock_payout_canonical`.
-/

namespace KrovaCoin

open Lib Superblock

theorem le_mul_paymentsOf_value {target total : Int} (ht : 0 ≤ target) (hT : 0 < total) :
    ∀ {tally : Tally}, (∀ e ∈ tally, 0 < e.2) →
      totalOf tally * target ≤ total * valueOf (paymentsOf target total tally) + tally.length * (total - 1)
  | [], _ => by simp [paymentsOf]
  | e :: rest, h => by
    have he := h e List.mem_cons_self
    have ih := le_mul_paymentsOf_value ht hT fun e he => h e (List.mem_cons_of_mem _ he)
    have hshare : e.2 * target < (shareOf target total e + 1) * total := Int.lt_ediv_add_one_mul_self _ hT
    rw [Int.add_mul, Int.one_mul, Int.mul_comm _ total] at hshare
    rw [paymentsOf_cons_value ht hT he, totalOf_cons, Int.add_mul, Int.mul_add, List.length_cons, Nat.cast_succ,
      Int.add_mul, Int.one_mul]
    omega

theorem undistributed_lt {target : Int} {tally : Tally} (ht : 0 ≤ target) (hpos : ∀ e ∈ tally, 0 < e.2)
    (hT : 0 < totalOf tally) : target - valueOf (paymentsOf target (totalOf tally) tally) < tally.length := by
  have hle := le_mul_paymentsOf_value ht hT hpos
  have hlen : (0 : Int) < tally.length := by
    cases tally with
    | nil => cases hT
    | cons e rest =>
      rw [List.length_cons]
      omega
  generalize valueOf (paymentsOf target (totalOf tally) tally) = paid at hle ⊢
  generalize totalOf tally = total at hle hT
  have hlt : total * (target - paid) < total * tally.length := by
    rw [Int.mul_sub]
    rw [Int.mul_sub, Int.mul_one, Int.mul_comm (tally.length : Int)] at hle
    omega
  exact Int.lt_of_mul_lt_mul_left hlt hT.le

theorem computeSuperblockDistribution_eq {t : StakerTally} {target pool : Int} (poolScriptPubKey : CScript)
    (hne : t.entries ≠ []) (ht : 0 < target) (hpool : 0 ≤ pool ∧ pool ≤ 9223372036854775807)
    (htotal : totalOf t.entries ≤ 2147483647) :
    computeSuperblockDistribution t.entries target pool poolScriptPubKey =
      .ok (payoutOutputs t target pool poolScriptPubKey) := by
  unfold computeSuperblockDistribution
  rw [distribute_min hne ht hpool htotal]
  rfl

/-- **The payout of a cycle is canonical.** `ComputeSuperblockDistribution` returns outputs that add up to the pool's
    coin: the positive floor shares in map order and at most one output back to the pool; less than one unit for each
    staker is not distributed. `CheckSuperblockPayoutTx` accepts a transaction that spends a coin with the pool's script
    exactly if the coin is worth something and these are the outputs. -/
theorem superblock_payout_canonical (t : StakerTally) (target pool : Int) (poolScriptPubKey : CScript)
    (hne : t.entries ≠ []) (htotal : totalOf t.entries ≤ 2147483647) (htarget : 0 < target)
    (hpool : 0 ≤ pool ∧ pool ≤ 9223372036854775807) :
    ∃ payments change, computeSuperblockDistribution t.entries target pool poolScriptPubKey = .ok (payments ++ change) ∧
      valueOf (payments ++ change) = pool ∧
      payments = (t.entries.filter fun e => decide (0 < e.2 * min target pool / totalOf t.entries)).map
        (fun e => (⟨e.2 * min target pool / totalOf t.entries, e.1⟩ : CTxOut)) ∧
      (change = [] ∨ ∃ rest, 0 < rest ∧ change = [⟨rest, poolScriptPubKey⟩]) ∧
      0 ≤ min target pool - valueOf payments ∧ min target pool - valueOf payments < t.entries.length ∧
      ∀ (env : Env) (node : NodeState) (nHeight : Nat) (v : View) (tx : CTransaction) (txin : CTxIn) (c : Coin),
        tallyBefore env.params node.chainActive nHeight = t → getSuperblockPayout env.params nHeight = .ok target →
        poolScriptPubKey = poolScript env.params → tx.vin = [txin] → v.coin txin.prevout = some c →
        c.out = ⟨pool, poolScriptPubKey⟩ →
          (checkSuperblockPayoutTx env node tx nHeight v = .ok true ↔ 0 < pool ∧ tx.vout = payments ++ change) := by
  have hmin : 0 ≤ min target pool := by omega
  have hT := StakerTally.total_pos hne
  refine ⟨paymentsOf (min target pool) (totalOf t.entries) t.entries, _,
    computeSuperblockDistribution_eq poolScriptPubKey hne htarget hpool htotal,
    valueOf_payoutOutputs hne htarget hpool.1, rfl, ?_, ?_, undistributed_lt hmin t.positive hT, ?_⟩
  · by_cases hrest : pool - valueOf (paymentsOf (min target pool) (totalOf t.entries) t.entries) > 0
    · exact .inr ⟨_, hrest, if_pos hrest⟩
    · exact .inl (if_neg hrest)
  · have := paymentsOf_value_le hmin t.positive hT
    omega
  · rintro env node nHeight v tx txin c rfl hscheduled rfl hvin hcoin hout
    have hvalue : c.out.nValue = pool := by rw [hout]
    have hcheck := checkSuperblockPayoutTx_coin hne htotal hscheduled htarget hvin hcoin (by rw [hout])
      (by rw [hvalue]; exact hpool)
    rw [hvalue] at hcheck
    exact hcheck

theorem poolPayout_canonical : ∃ outs,
    computeSuperblockDistribution (tallyBefore sampleEnv.params payoutNode.chainActive 2041).entries 690410958904110
      POOL_TOTAL (poolScript mainParams) = .ok outs ∧
    checkSuperblockPayoutTx sampleEnv payoutNode (spendTo ⟨9, 0⟩ outs) 2041 (payoutView [(⟨9, 0⟩, POOL_TOTAL)]) =
      .ok true := by
  have hpool : (payoutView [(⟨9, 0⟩, POOL_TOTAL)]).coin ⟨9, 0⟩ =
      some ⟨false, false, ⟨POOL_TOTAL, poolScript mainParams⟩, 1⟩ := by decide +kernel
  obtain ⟨payments, change, hcompute, -, -, -, -, -, hcheck⟩ := superblock_payout_canonical
    (tallyBefore sampleEnv.params payoutNode.chainActive 2041) 690410958904110 POOL_TOTAL (poolScript mainParams)
    payoutNode_due.tally_ne payoutNode_due.total_le.2 payoutNode_due.positive (by decide)
  exact ⟨payments ++ change, hcompute, (hcheck sampleEnv payoutNode 2041 _ _ ⟨⟨9, 0⟩, [], 0⟩ _ rfl
    payoutNode_due.scheduled rfl rfl hpool rfl).mpr ⟨by decide, rfl⟩⟩

/-- A coin of value zero has the empty list of outputs, and a transaction with that list is not accepted; a negative
    value stops at an assertion. -/
theorem emptyPool_refused :
    computeSuperblockDistribution (tallyBefore sampleEnv.params payoutNode.chainActive 2041).entries 690410958904110 0
      (poolScript mainParams) = .ok [] ∧
    checkSuperblockPayoutTx sampleEnv payoutNode (spendTo ⟨9, 0⟩ []) 2041 (payoutView [(⟨9, 0⟩, 0)]) = .ok false ∧
    computeSuperblockDistribution (tallyBefore sampleEnv.params payoutNode.chainActive 2041).entries 690410958904110 (-1)
      (poolScript mainParams) = .error .assertion := by
  decide +kernel

end KrovaCoin
