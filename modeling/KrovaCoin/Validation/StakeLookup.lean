import KrovaCoin.Validation.RequiredWork

/-!
# Where a stake is looked up (`stakeinput.cpp`: `NewPivStake`)

`NewPivStake` falls back to a transaction of the active chain if the staked output is not among the coins of the tip,
and takes the output at the index that the block names. Here that access has a result of its own when the index is too
large; `newPivStake` gives it as a failed lookup.

Principal result: `stakeLookup_defined_iff`.
-/

namespace KrovaCoin

open Lib

/-- `NewPivStake`, with the access to `txPrev->vout`. -/
def newPivStakeRead (p : Params) (v : StakeView) (txin : CTxIn) (nHeight : Int) (nTime : UInt32) :
    Except ReadFault (Option CPivStake) :=
  if txin.isZerocoinSpend then .ok none
  else
    let coin := v.accessCoin txin.prevout
    if !coin.isSpent then .ok (pivStakeAt p v nHeight nTime coin.out txin.prevout coin.nHeight)
    else
      match v.getTransaction txin.prevout.hash with
      | none => .ok none
      | some (txPrev, hashBlock) =>
        match v.activeHeight hashBlock with
        | none => .ok none
        | some heightFrom =>
          match v.chainActive heightFrom with
          | none => .ok none
          | some (_, timeFrom) =>
            if !hasStakeMinAgeOrDepth p nHeight nTime heightFrom timeFrom then .ok none
            else
              match txPrev.vout[txin.prevout.n.toNat]? with
              | none => .error .outOfRange
              | some out => .ok (some ⟨out, txin.prevout, heightFrom, timeFrom⟩)

/-- `LoadStakeInput`, with the accesses. -/
def loadStakeInputRead (p : Params) (v : StakeView) (nHeight : Int) (block : CBlock) :
    Except ReadFault (Option CPivStake) :=
  match block.vtx with
  | _ :: tx :: _ =>
    match tx.vin with
    | txin :: _ => if block.isProofOfStake then newPivStakeRead p v txin nHeight block.nTime else .ok none
    | [] => .ok none
  | _ => .ok none

section Lookup

variable {p : Params} {v : StakeView} {txin : CTxIn} {nHeight : Int} {nTime : UInt32}

/-- A successful lookup is that of `newPivStake`, which fails where the access is out of range. -/
theorem newPivStake_eq :
    newPivStake p v txin nHeight nTime = (newPivStakeRead p v txin nHeight nTime).toOption.join := by
  unfold newPivStake newPivStakeRead
  split
  · rfl
  dsimp only
  split
  · rfl
  cases htx : v.getTransaction txin.prevout.hash with
  | none => rfl
  | some found =>
    obtain ⟨txPrev, hashBlock⟩ := found
    cases hheight : v.activeHeight hashBlock with
    | none => simp only [hheight]; rfl
    | some heightFrom =>
      simp only [hheight]
      cases hactive : v.chainActive heightFrom with
      | none =>
        cases hout : txPrev.vout[txin.prevout.n.toNat]? with
        | none => rfl
        | some out => simp only [pivStakeAt, hactive]; rfl
      | some index =>
        obtain ⟨hash, timeFrom⟩ := index
        cases hold : hasStakeMinAgeOrDepth p nHeight nTime heightFrom timeFrom with
        | false =>
          cases hout : txPrev.vout[txin.prevout.n.toNat]? with
          | none => simp only [hold, Bool.not_false, if_true]; rfl
          | some out => simp only [pivStakeAt, hactive, hold, Bool.not_false, Bool.false_eq_true, if_false, if_true]; rfl
        | true =>
          cases hout : txPrev.vout[txin.prevout.n.toNat]? with
          | none => simp only [hold, Bool.not_true, Bool.false_eq_true, if_false]; rfl
          | some out => simp only [pivStakeAt, hactive, hold, Bool.not_true, Bool.false_eq_true, if_false, if_true]; rfl

/-- The output that the input names is among the coins, or its transaction is not in the active chain (deep enough), or
    the transaction has an output of that index. -/
def NamesOutput (p : Params) (v : StakeView) (txin : CTxIn) (nHeight : Int) (nTime : UInt32) : Prop :=
  txin.isZerocoinSpend = false → (v.accessCoin txin.prevout).isSpent = true →
    ∀ txPrev hashBlock heightFrom hash timeFrom, v.getTransaction txin.prevout.hash = some (txPrev, hashBlock) →
      v.activeHeight hashBlock = some heightFrom → v.chainActive heightFrom = some (hash, timeFrom) →
      hasStakeMinAgeOrDepth p nHeight nTime heightFrom timeFrom = true →
        txin.prevout.n.toNat < txPrev.vout.length

theorem newPivStakeRead_defined_iff :
    (∃ stake, newPivStakeRead p v txin nHeight nTime = .ok stake) ↔ NamesOutput p v txin nHeight nTime := by
  constructor
  · rintro ⟨stake, hstake⟩
    intro hzero hspent txPrev hashBlock heightFrom hash timeFrom htx hheight hactive hold
    simp only [newPivStakeRead, hzero, hspent, htx, hheight, hactive, hold, Bool.not_true, Bool.false_eq_true,
      if_false] at hstake
    by_contra hge
    rw [List.getElem?_eq_none (not_lt.mp hge)] at hstake
    cases hstake
  · intro hexists
    unfold newPivStakeRead
    split
    · exact ⟨_, rfl⟩
    rename_i hzero
    dsimp only
    split
    · exact ⟨_, rfl⟩
    rename_i hspent
    split
    · exact ⟨_, rfl⟩
    rename_i txPrev hashBlock htx
    split
    · exact ⟨_, rfl⟩
    rename_i heightFrom hheight
    split
    · exact ⟨_, rfl⟩
    rename_i hash timeFrom hactive
    split
    · exact ⟨_, rfl⟩
    rename_i hold
    have hlt := hexists (by simpa using hzero) (by simpa using hspent) txPrev hashBlock heightFrom hash timeFrom htx
      hheight hactive (by simpa using hold)
    rw [List.getElem?_eq_getElem hlt]
    exact ⟨_, rfl⟩

end Lookup

end KrovaCoin
