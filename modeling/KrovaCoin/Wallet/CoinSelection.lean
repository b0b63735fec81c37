import KrovaCoin.Lib.Chosen
import KrovaCoin.Policy

/-!
# Coin selection (`wallet/wallet.cpp`)

* `approximateBestSubset`, `selectCoinsMinConf`, `selectCoinsToSpend` — the functions of the source.  Sums are
  signed 64-bit numbers; a sum that does not fit stops the computation.

Principal results: `selectCoinsMinConf_eligible`, `selectCoinsToSpend_sound`.
-/

namespace KrovaCoin

open Lib

def MIN_CHANGE : Int := 1000000

/-- The initial value of `coinLowestLarger.first`. -/
def INT64_MAX : Int := 9223372036854775807

/-- `std::pair<const CWalletTx*, unsigned int>`: an output of a transaction. -/
structure WalletCoin where
  tx : CTransaction
  i : UInt32
  inRange : i.toNat < tx.vout.length
  deriving DecidableEq

namespace WalletCoin

/-- `coin.first->tx->vout[coin.second]`. -/
def txOut (coin : WalletCoin) : CTxOut := coin.tx.vout.get ⟨coin.i.toNat, coin.inRange⟩

def nValue (coin : WalletCoin) : Int := coin.txOut.nValue

def outPoint (coin : WalletCoin) : COutPoint := ⟨coin.tx.hash, coin.i⟩

end WalletCoin

/-- `COutput`, with what the selection asks of its transaction: `IsFromMe(ISMINE_ALL)`, and the larger of the numbers
    of its ancestors and descendants if it is in the mempool. -/
structure COutput extends WalletCoin where
  nDepth : Int
  fSpendable : Bool
  fFromMe : Bool
  nPackage : Option Nat

def COutput.withinChainLimit (out : COutput) (chainLimit : Nat) : Bool :=
  out.nPackage.all fun n => decide (n < chainLimit)

/-- The coins that a call of `SelectCoinsMinConf` looks at. -/
def COutput.eligible (nConfMine nConfTheirs : Int) (nMaxAncestors : Nat) (out : COutput) : Bool :=
  out.fSpendable && decide (out.nDepth ≥ if out.fFromMe then nConfMine else nConfTheirs) &&
    out.withinChainLimit nMaxAncestors

/-- What is left to chance in a call of `SelectCoinsMinConf`: `Shuffle`, and the random bits of the two searches by
    repetition and position. -/
structure CoinRandomness where
  shuffle : List COutput → List COutput
  perm : ∀ coins, (shuffle coins).Perm coins
  randbool : Nat → Nat → Bool
  randboolChange : Nat → Nat → Bool

def addValues (nValue : Int) (coins : List WalletCoin) : Checked Int :=
  coins.foldlM (fun nValue coin => checkInt64 (nValue + coin.nValue)) nValue

/-! ## The subset search -/

/-- The variables of `ApproximateBestSubset`. -/
structure SubsetSearch where
  nTotal : Int
  vfIncluded : List Bool
  fReachedTarget : Bool
  vfBest : List Bool
  nBest : Int

section Search

variable (nTargetValue : Int)

/-- Coin `i` is included, and taken out again if the target is reached. -/
def includeCoin (s : SubsetSearch) (i : Nat) (n : Int) : Checked SubsetSearch := do
  let nTotal ← checkInt64 (s.nTotal + n)
  let vfIncluded := s.vfIncluded.set i true
  if nTotal ≥ nTargetValue then
    let nRest ← checkInt64 (nTotal - n)
    return {
      nTotal := nRest
      vfIncluded := vfIncluded.set i false
      fReachedTarget := true
      vfBest := if nTotal < s.nBest then vfIncluded else s.vfBest
      nBest := if nTotal < s.nBest then nTotal else s.nBest }
  else return { s with nTotal := nTotal, vfIncluded := vfIncluded }

/-- A pass over the coins; `take` says which are tried. -/
def subsetPass (take : List Bool → Nat → Bool) : List (WalletCoin × Nat) → SubsetSearch → Checked SubsetSearch
  | [], s => .ok s
  | (coin, i) :: rest, s => do
    let s ← if take s.vfIncluded i then includeCoin nTargetValue s i coin.nValue else .ok s
    subsetPass take rest s

/-- One repetition: a pass with random bits, then, if the target was not reached, one with the coins left out. -/
def subsetRound (vValue : List WalletCoin) (randbool : Nat → Bool) (vfBest : List Bool) (nBest : Int) :
    Checked (List Bool × Int) := do
  let s ← subsetPass nTargetValue (fun _ i => randbool i) vValue.zipIdx
    ⟨0, List.replicate vValue.length false, false, vfBest, nBest⟩
  let s ← if s.fReachedTarget then .ok s
    else subsetPass nTargetValue (fun vfIncluded i => !vfIncluded.getD i false) vValue.zipIdx s
  return (s.vfBest, s.nBest)

/-- The repetitions that are left, from repetition `nRep` on. -/
def subsetRounds (vValue : List WalletCoin) (randbool : Nat → Nat → Bool) :
    Nat → Nat → List Bool → Int → Checked (List Bool × Int)
  | 0, _, vfBest, nBest => .ok (vfBest, nBest)
  | left + 1, nRep, vfBest, nBest =>
    if nBest = nTargetValue then .ok (vfBest, nBest)
    else do
      let (vfBest, nBest) ← subsetRound nTargetValue vValue (randbool nRep) vfBest nBest
      subsetRounds vValue randbool left (nRep + 1) vfBest nBest

def approximateBestSubset (vValue : List WalletCoin) (randbool : Nat → Nat → Bool) (nTotalLower : Int) :
    Checked (List Bool × Int) :=
  subsetRounds nTargetValue vValue randbool 1000 0 (List.replicate vValue.length true) nTotalLower

/-! ## `SelectCoinsMinConf` -/

/-- The variables of the loop over the coins. -/
structure CoinScan where
  vValue : List WalletCoin
  nTotalLower : Int
  coinLowestLarger : Option WalletCoin

/-- The loop over the coins; it stops at a coin of exactly the target. -/
def scanCoins (eligible : COutput → Bool) : List COutput → CoinScan → Checked (WalletCoin ⊕ CoinScan)
  | [], s => .ok (.inr s)
  | output :: rest, s =>
    if !eligible output then scanCoins eligible rest s
    else if output.nValue = nTargetValue then .ok (.inl output.toWalletCoin)
    else do
      let limit ← checkInt64 (nTargetValue + MIN_CHANGE)
      if output.nValue < limit then
        let nTotalLower ← checkInt64 (s.nTotalLower + output.nValue)
        scanCoins eligible rest { s with vValue := s.vValue ++ [output.toWalletCoin], nTotalLower := nTotalLower }
      else if output.nValue < s.coinLowestLarger.elim INT64_MAX WalletCoin.nValue then
        scanCoins eligible rest { s with coinLowestLarger := some output.toWalletCoin }
      else scanCoins eligible rest s

/-- The two searches of `SelectCoinsMinConf`: without an exact match the second one leaves room for change. -/
def searchSubsets (r : CoinRandomness) (vValue : List WalletCoin) (nTotalLower : Int) : Checked (List Bool × Int) := do
  let (vfBest, nBest) ← approximateBestSubset nTargetValue vValue r.randbool nTotalLower
  if nBest = nTargetValue then return (vfBest, nBest)
  else
    let limit ← checkInt64 (nTargetValue + MIN_CHANGE)
    if nTotalLower ≥ limit then approximateBestSubset limit vValue r.randboolChange nTotalLower
    else return (vfBest, nBest)

/-- The end of `SelectCoinsMinConf`: the next larger coin, or the best subset. -/
def chooseBest (vValue : List WalletCoin) (coinLowestLarger : Option WalletCoin) (vfBest : List Bool) (nBest : Int) :
    Checked (List WalletCoin × Int) := do
  let best : Checked (List WalletCoin × Int) := do
    let nValueRet ← addValues 0 (chosen vValue vfBest)
    return (chosen vValue vfBest, nValueRet)
  match coinLowestLarger with
  | none => best
  | some larger =>
    let limit ← checkInt64 (nTargetValue + MIN_CHANGE)
    if (nBest ≠ nTargetValue ∧ nBest < limit) ∨ larger.nValue ≤ nBest then return ([larger], larger.nValue)
    else best

/-- `SelectCoinsMinConf`: the coins and their value, `none` for `false`. -/
def selectCoinsMinConf (r : CoinRandomness) (nConfMine nConfTheirs : Int) (nMaxAncestors : Nat)
    (vCoins : List COutput) : Checked (Option (List WalletCoin × Int)) := do
  match ← scanCoins nTargetValue (COutput.eligible nConfMine nConfTheirs nMaxAncestors) (r.shuffle vCoins)
    ⟨[], 0, none⟩ with
  | .inl coin => return some ([coin], coin.nValue)
  | .inr s =>
    if s.nTotalLower = nTargetValue then
      let nValueRet ← addValues 0 s.vValue
      return some (s.vValue, nValueRet)
    else if s.nTotalLower < nTargetValue then return s.coinLowestLarger.map fun coin => ([coin], coin.nValue)
    else
      let vValue := s.vValue.mergeSort fun a b => decide (b.nValue ≤ a.nValue)
      let (vfBest, nBest) ← searchSubsets nTargetValue r vValue s.nTotalLower
      some <$> chooseBest nTargetValue vValue s.coinLowestLarger vfBest nBest

end Search

/-! ## `SelectCoinsToSpend` -/

/-- `CCoinControl`: `destChange` is the script of a valid change destination. -/
structure CCoinControl where
  destChange : Option CScript := none
  fAllowOtherInputs : Bool := false
  nMinimumTotalFee : Int := 0
  fOverrideFeeRate : Bool := false
  nFeeRate : Int := 0
  setSelected : List COutPoint := []
  selected_nodup : setSelected.Nodup

/-- The wallet's transactions by their hashes. -/
structure WalletTxs where
  mapWallet : Uint256 → Option CTransaction
  hash_eq : ∀ {hash tx}, mapWallet hash = some tx → tx.hash = hash

def WalletTxs.Holds (w : WalletTxs) (coin : WalletCoin) : Prop := w.mapWallet coin.tx.hash = some coin.tx

/-- The output of the wallet that an outpoint names. -/
def WalletTxs.coinAt (w : WalletTxs) (outPoint : COutPoint) : Option WalletCoin :=
  match w.mapWallet outPoint.hash with
  | none => none
  | some tx => if h : outPoint.n.toNat < tx.vout.length then some ⟨tx, outPoint.n, h⟩ else none

/-- The coins of the preset inputs; `none` if one of them is not in the wallet. -/
def presetCoins (w : WalletTxs) (vPresetInputs : List COutPoint) : Option (List WalletCoin) :=
  vPresetInputs.mapM w.coinAt

structure SelectionOptions where
  bSpendZeroConfChange : Bool
  nMaxChainLength : Nat

/-- The attempts of `SelectCoinsToSpend`, from the strictest on: confirmations of own and of other coins, and the
    longest chain of unconfirmed transactions. -/
def selectionAttempts (opts : SelectionOptions) : List (Int × Int × Nat) :=
  [(1, 6, 0), (1, 1, 0)] ++
    if opts.bSpendZeroConfChange then
      [(0, 1, 2), (0, 1, min 4 (opts.nMaxChainLength / 3)), (0, 1, opts.nMaxChainLength / 2), (0, 1, opts.nMaxChainLength)]
    else []

/-- The first attempt that succeeds; each has its own random outcomes. -/
def trySelections (nTargetValue : Int) (vCoins : List COutput) (random : Nat → CoinRandomness) :
    Nat → List (Int × Int × Nat) → Checked (Option (List WalletCoin × Int))
  | _, [] => .ok none
  | n, (nConfMine, nConfTheirs, nMaxAncestors) :: attempts => do
    match ← selectCoinsMinConf nTargetValue (random n) nConfMine nConfTheirs nMaxAncestors vCoins with
    | some found => return some found
    | none => trySelections nTargetValue vCoins random (n + 1) attempts

/-- `coinControl && coinControl->HasSelected() && !coinControl->fAllowOtherInputs`. -/
def onlySelected (coinControl : Option CCoinControl) : Bool :=
  coinControl.any fun cc => !cc.setSelected.isEmpty && !cc.fAllowOtherInputs

/-- `SelectCoinsToSpend`: the coins and their value, `none` for `false`. -/
def selectCoinsToSpend (w : WalletTxs) (opts : SelectionOptions) (vAvailableCoins : List COutput) (nTargetValue : Int)
    (coinControl : Option CCoinControl) (random : Nat → CoinRandomness) : Checked (Option (List WalletCoin × Int)) :=
  if onlySelected coinControl then do
    let coins := (vAvailableCoins.filter COutput.fSpendable).map COutput.toWalletCoin
    let nValueRet ← addValues 0 coins
    return if nValueRet ≥ nTargetValue then some (coins, nValueRet) else none
  else
    match presetCoins w (coinControl.elim [] CCoinControl.setSelected) with
    | none => .ok none
    | some setPresetCoins => do
      let nValueFromPresetInputs ← addValues 0 setPresetCoins
      let vCoins := vAvailableCoins.filter fun out => !setPresetCoins.contains out.toWalletCoin
      let found ← if nTargetValue ≤ nValueFromPresetInputs then .ok (some ([], 0))
        else do
          let nRest ← checkInt64 (nTargetValue - nValueFromPresetInputs)
          trySelections nRest vCoins random 0 (selectionAttempts opts)
      match found with
      | none => return none
      | some (setCoinsRet, nValueRet) =>
        let nValueRet ← checkInt64 (nValueRet + nValueFromPresetInputs)
        return some (setCoinsRet ++ setPresetCoins, nValueRet)

/-! ## Sums -/

def totalValue (coins : List WalletCoin) : Int := (coins.map WalletCoin.nValue).sum

@[simp] theorem totalValue_nil : totalValue [] = 0 := rfl

@[simp] theorem totalValue_cons (coin : WalletCoin) (coins : List WalletCoin) :
    totalValue (coin :: coins) = coin.nValue + totalValue coins := by
  simp [totalValue]

@[simp] theorem totalValue_append (coins coins' : List WalletCoin) :
    totalValue (coins ++ coins') = totalValue coins + totalValue coins' := by
  simp [totalValue]

variable {coins : List WalletCoin}

theorem totalValue_perm {coins' : List WalletCoin} (h : coins.Perm coins') : totalValue coins = totalValue coins' :=
  (h.map WalletCoin.nValue).sum_eq

theorem addValues_eq_ok {n m : Int} (h : addValues n coins = .ok m) : m = n + totalValue coins := foldlM_checkInt64 h

/-! ## The search finds subsets that reach the target -/

section Search

variable {nTargetValue : Int} {vValue : List WalletCoin}

/-- The flags and sums of a search belong together, and the best subset reaches the target. -/
structure SearchInv (nTargetValue : Int) (vValue : List WalletCoin) (s : SubsetSearch) : Prop where
  length : s.vfIncluded.length = vValue.length
  total : s.nTotal = totalValue (chosen vValue s.vfIncluded)
  best : s.nBest = totalValue (chosen vValue s.vfBest)
  reaches : nTargetValue ≤ s.nBest

variable {coin : WalletCoin}

theorem SearchInv.includeCoin {s s' : SubsetSearch} (hs : SearchInv nTargetValue vValue s) {i : Nat}
    (hcoin : vValue[i]? = some coin) (hfresh : s.vfIncluded[i]? = some false)
    (h : KrovaCoin.includeCoin nTargetValue s i coin.nValue = .ok s') :
    SearchInv nTargetValue vValue s' ∧ ∃ b, s'.vfIncluded = s.vfIncluded.set i b := by
  simp only [KrovaCoin.includeCoin, bind_eq_ok] at h
  obtain ⟨nTotal, htotal, h⟩ := h
  have hsum : nTotal = totalValue (chosen vValue (s.vfIncluded.set i true)) := by
    rw [checkInt64_eq_ok htotal, hs.total]
    exact (sum_chosen_set WalletCoin.nValue hcoin hfresh).symm
  split at h
  · rename_i hreached
    rw [bind_eq_ok] at h
    obtain ⟨nRest, hrest, h⟩ := h
    cases h
    have hback : (s.vfIncluded.set i true).set i false = s.vfIncluded := by
      rw [List.set_set, set_eq_self hfresh]
    refine ⟨⟨?_, ?_, ?_, ?_⟩, false, ?_⟩
    · rw [hback, hs.length]
    · dsimp only
      rw [hback, ← hs.total, checkInt64_eq_ok hrest, checkInt64_eq_ok htotal]
      omega
    · split
      · exact hsum
      · exact hs.best
    · split
      · exact hreached
      · exact hs.reaches
    · rw [hback, set_eq_self hfresh]
  · cases h
    exact ⟨⟨by simpa using hs.length, hsum, hs.best, hs.reaches⟩, true, rfl⟩

/-- A pass that only includes coins that are not yet included. `Fresh` says so of the coins that are still to come. -/
structure FreshRule (vValue : List WalletCoin) (take : List Bool → Nat → Bool)
    (Fresh : List Bool → List (WalletCoin × Nat) → Prop) : Prop where
  take : ∀ {vf e rest}, vf.length = vValue.length → Fresh vf (e :: rest) → take vf e.2 = true → vf[e.2]? = some false
  set : ∀ {vf e rest} b, vf.length = vValue.length → Fresh vf (e :: rest) → Fresh (vf.set e.2 b) rest
  skip : ∀ {vf e rest}, Fresh vf (e :: rest) → Fresh vf rest

theorem SearchInv.pass {take : List Bool → Nat → Bool} {Fresh : List Bool → List (WalletCoin × Nat) → Prop}
    (hrule : FreshRule vValue take Fresh) :
    ∀ {rest : List (WalletCoin × Nat)} {s s' : SubsetSearch}, SearchInv nTargetValue vValue s →
      (∀ e ∈ rest, vValue[e.2]? = some e.1) → Fresh s.vfIncluded rest →
      subsetPass nTargetValue take rest s = .ok s' → SearchInv nTargetValue vValue s'
  | [], s, s', hs, _, _, h => by
    cases h
    exact hs
  | (coin, i) :: rest, s, s', hs, hcoins, hfresh, h => by
    rw [List.forall_mem_cons] at hcoins
    rw [subsetPass] at h
    split at h
    · rename_i htaken
      rw [bind_eq_ok] at h
      obtain ⟨s1, h1, hrest⟩ := h
      obtain ⟨hs1, b, hflags⟩ := hs.includeCoin hcoins.1 (hrule.take hs.length hfresh htaken) h1
      have hfresh1 : Fresh s1.vfIncluded rest := by
        rw [hflags]
        exact hrule.set b hs.length hfresh
      exact SearchInv.pass hrule hs1 hcoins.2 hfresh1 hrest
    · exact SearchInv.pass hrule hs hcoins.2 (hrule.skip hfresh) h

theorem zipIdx_getElem? {e : WalletCoin × Nat} (h : e ∈ vValue.zipIdx) : vValue[e.2]? = some e.1 :=
  List.mk_mem_zipIdx_iff_getElem?.mp h

/-- In the first pass no coin is included twice, since each is visited once. -/
def FreshOnce (vf : List Bool) (rest : List (WalletCoin × Nat)) : Prop :=
  (rest.map Prod.snd).Nodup ∧ ∀ e ∈ rest, vf[e.2]? = some false

theorem freshOnce_rule (randbool : Nat → Bool) : FreshRule vValue (fun _ i => randbool i) FreshOnce where
  take _ hfresh _ := hfresh.2 _ List.mem_cons_self
  set := by
    rintro vf e rest b _ ⟨hnodup, hflags⟩
    rw [List.map_cons, List.nodup_cons] at hnodup
    refine ⟨hnodup.2, fun e' he' => ?_⟩
    have hne : e.2 ≠ e'.2 := fun heq => hnodup.1 (heq ▸ List.mem_map_of_mem he')
    rw [List.getElem?_set_ne hne]
    exact hflags e' (List.mem_cons_of_mem _ he')
  skip hfresh := ⟨(List.nodup_cons.mp hfresh.1).2, fun e he => hfresh.2 e (List.mem_cons_of_mem _ he)⟩

theorem freshOnce_start : FreshOnce (List.replicate vValue.length false) vValue.zipIdx := by
  constructor
  · rw [List.zipIdx_map_snd]
    exact List.nodup_range'
  · intro e he
    have hlt := (List.getElem?_eq_some_iff.mp (zipIdx_getElem? he)).1
    rw [List.getElem?_replicate, if_pos hlt]

/-- The second pass looks at the flags itself. -/
def FreshLeft (vValue : List WalletCoin) (_ : List Bool) (rest : List (WalletCoin × Nat)) : Prop :=
  ∀ e ∈ rest, e.2 < vValue.length

theorem freshLeft_rule : FreshRule vValue (fun vfIncluded i => !vfIncluded.getD i false) (FreshLeft vValue) where
  take := by
    intro vf e rest hlen hfresh htake
    have hlt : e.2 < vf.length := by
      rw [hlen]
      exact hfresh e List.mem_cons_self
    rw [List.getElem?_eq_getElem hlt]
    rw [List.getD_eq_getElem?_getD, List.getElem?_eq_getElem hlt] at htake
    simpa using htake
  set _ _ hfresh e he := hfresh e (List.mem_cons_of_mem _ he)
  skip hfresh e he := hfresh e (List.mem_cons_of_mem _ he)

theorem freshLeft_start (vf : List Bool) : FreshLeft vValue vf vValue.zipIdx :=
  fun _ he => (List.getElem?_eq_some_iff.mp (zipIdx_getElem? he)).1

variable {vfBest : List Bool} {nBest : Int}

theorem searchInv_start (hbest : nBest = totalValue (chosen vValue vfBest)) (hreaches : nTargetValue ≤ nBest) :
    SearchInv nTargetValue vValue ⟨0, List.replicate vValue.length false, false, vfBest, nBest⟩ :=
  ⟨List.length_replicate, by simp [chosen_false], hbest, hreaches⟩

theorem subsetRound_inv {randbool : Nat → Bool} {vfBest' : List Bool} {nBest' : Int}
    (hbest : nBest = totalValue (chosen vValue vfBest)) (hreaches : nTargetValue ≤ nBest)
    (h : subsetRound nTargetValue vValue randbool vfBest nBest = .ok (vfBest', nBest')) :
    nBest' = totalValue (chosen vValue vfBest') ∧ nTargetValue ≤ nBest' := by
  simp only [subsetRound, bind_eq_ok] at h
  obtain ⟨s1, h1, h⟩ := h
  have hs1 := (searchInv_start hbest hreaches).pass (freshOnce_rule randbool) (fun e he => zipIdx_getElem? he)
    freshOnce_start h1
  split at h
  · cases h
    exact ⟨hs1.best, hs1.reaches⟩
  · rw [bind_eq_ok] at h
    obtain ⟨s2, h2, heq⟩ := h
    cases heq
    have hs2 := hs1.pass freshLeft_rule (fun e he => zipIdx_getElem? he) (freshLeft_start _) h2
    exact ⟨hs2.best, hs2.reaches⟩

variable {randbool : Nat → Nat → Bool}

theorem subsetRounds_inv : ∀ {left nRep : Nat} {vfBest vfBest' : List Bool}
    {nBest nBest' : Int}, nBest = totalValue (chosen vValue vfBest) → nTargetValue ≤ nBest →
    subsetRounds nTargetValue vValue randbool left nRep vfBest nBest = .ok (vfBest', nBest') →
    nBest' = totalValue (chosen vValue vfBest') ∧ nTargetValue ≤ nBest'
  | 0, _, _, _, _, _, hbest, hreaches, h => by
    cases h
    exact ⟨hbest, hreaches⟩
  | left + 1, nRep, vfBest, vfBest', nBest, nBest', hbest, hreaches, h => by
    rw [subsetRounds] at h
    split at h
    · cases h
      exact ⟨hbest, hreaches⟩
    · rw [bind_eq_ok] at h
      obtain ⟨⟨vf1, n1⟩, h1, hrest⟩ := h
      obtain ⟨hbest1, hreaches1⟩ := subsetRound_inv hbest hreaches h1
      exact subsetRounds_inv hbest1 hreaches1 hrest

variable {nTotalLower : Int}

theorem approximateBestSubset_sound (htotal : nTotalLower = totalValue vValue) (hreaches : nTargetValue ≤ nTotalLower)
    (h : approximateBestSubset nTargetValue vValue randbool nTotalLower = .ok (vfBest, nBest)) :
    nBest = totalValue (chosen vValue vfBest) ∧ nTargetValue ≤ nBest :=
  subsetRounds_inv (by rw [chosen_true, htotal]) hreaches h

variable {r : CoinRandomness}

theorem searchSubsets_sound (htotal : nTotalLower = totalValue vValue) (hreaches : nTargetValue ≤ nTotalLower)
    (h : searchSubsets nTargetValue r vValue nTotalLower = .ok (vfBest, nBest)) :
    nBest = totalValue (chosen vValue vfBest) ∧ nTargetValue ≤ nBest := by
  simp only [searchSubsets, bind_eq_ok] at h
  obtain ⟨⟨vf1, n1⟩, h1, h⟩ := h
  have hfirst := approximateBestSubset_sound htotal hreaches h1
  split at h
  · cases h
    exact hfirst
  · rw [bind_eq_ok] at h
    obtain ⟨limit, hlimit, h⟩ := h
    split at h
    · rename_i hroom
      obtain ⟨hbest, hlimit'⟩ := approximateBestSubset_sound htotal hroom h
      rw [checkInt64_eq_ok hlimit] at hlimit'
      unfold MIN_CHANGE at hlimit'
      exact ⟨hbest, by omega⟩
    · cases h
      exact hfirst

/-! ## `SelectCoinsMinConf` selects coins that reach the target -/

structure ScanInv (nTargetValue : Int) (done : List WalletCoin) (s : CoinScan) : Prop where
  sublist : s.vValue.Sublist done
  total : s.nTotalLower = totalValue s.vValue
  larger : ∀ coin ∈ s.coinLowestLarger, coin ∈ done ∧ nTargetValue ≤ coin.nValue

theorem scanInv_start : ScanInv nTargetValue [] ⟨[], 0, none⟩ := ⟨.slnil, rfl, fun _ h => by cases h⟩

variable {done : List WalletCoin} {s : CoinScan}

theorem ScanInv.skip (hs : ScanInv nTargetValue done s) (coin : WalletCoin) : ScanInv nTargetValue (done ++ [coin]) s :=
  ⟨hs.sublist.trans (List.sublist_append_left _ _), hs.total, fun c hc =>
    ⟨List.mem_append_left _ (hs.larger c hc).1, (hs.larger c hc).2⟩⟩

theorem ScanInv.addLower (hs : ScanInv nTargetValue done s) (h : nTotalLower = s.nTotalLower + coin.nValue) :
    ScanInv nTargetValue (done ++ [coin]) { s with vValue := s.vValue ++ [coin], nTotalLower := nTotalLower } where
  sublist := hs.sublist.append (List.Sublist.refl _)
  total := by
    rw [h, hs.total, totalValue_append, totalValue_cons, totalValue_nil, add_zero]
  larger := (hs.skip coin).larger

theorem ScanInv.setLarger (hs : ScanInv nTargetValue done s) (h : nTargetValue ≤ coin.nValue) :
    ScanInv nTargetValue (done ++ [coin]) { s with coinLowestLarger := some coin } where
  sublist := (hs.skip coin).sublist
  total := hs.total
  larger := fun c hc => by
    cases hc
    exact ⟨List.mem_append_right _ List.mem_cons_self, h⟩

variable {eligible : COutput → Bool}

/-- The loop finds a coin of exactly the target, or gathers smaller coins and the smallest larger one. -/
theorem scanCoins_inv : ∀ {rest : List COutput} {done : List WalletCoin} {s : CoinScan}
    {r : WalletCoin ⊕ CoinScan}, ScanInv nTargetValue done s → scanCoins nTargetValue eligible rest s = .ok r →
    (∀ coin, r = .inl coin → coin ∈ rest.map COutput.toWalletCoin ∧ coin.nValue = nTargetValue) ∧
      ∀ s', r = .inr s' → ScanInv nTargetValue (done ++ rest.map COutput.toWalletCoin) s'
  | [], done, s, r, hs, h => by
    cases h
    refine ⟨nofun, fun s' hs' => ?_⟩
    cases hs'
    rw [List.map_nil, List.append_nil]
    exact hs
  | output :: rest, done, s, r, hs, h => by
    have hstep : ∀ {s1 : CoinScan}, ScanInv nTargetValue (done ++ [output.toWalletCoin]) s1 →
        scanCoins nTargetValue eligible rest s1 = .ok r →
        (∀ coin, r = .inl coin → coin ∈ (output :: rest).map COutput.toWalletCoin ∧ coin.nValue = nTargetValue) ∧
          ∀ s', r = .inr s' → ScanInv nTargetValue (done ++ (output :: rest).map COutput.toWalletCoin) s' := by
      intro s1 hs1 hrest
      obtain ⟨hexact, hscan⟩ := scanCoins_inv hs1 hrest
      refine ⟨fun coin hcoin => ⟨List.mem_cons_of_mem _ (hexact coin hcoin).1, (hexact coin hcoin).2⟩,
        fun s' hs' => ?_⟩
      have := hscan s' hs'
      rwa [List.append_assoc] at this
    unfold scanCoins at h
    split at h
    · exact hstep (hs.skip _) h
    split at h
    · rename_i hexact
      cases h
      refine ⟨fun coin hcoin => ?_, nofun⟩
      cases hcoin
      exact ⟨List.mem_cons_self, hexact⟩
    rw [bind_eq_ok] at h
    obtain ⟨limit, hlimit, h⟩ := h
    split at h
    · rw [bind_eq_ok] at h
      obtain ⟨nTotalLower, htotal, h⟩ := h
      exact hstep (hs.addLower (checkInt64_eq_ok htotal)) h
    · rename_i hlarge
      split at h
      · refine hstep (hs.setLarger ?_) h
        rw [checkInt64_eq_ok hlimit] at hlarge
        unfold MIN_CHANGE at hlarge
        omega
      · exact hstep (hs.skip _) h

theorem chooseBest_sound {larger? : Option WalletCoin} {found : List WalletCoin × Int}
    (hbest : nBest = totalValue (chosen vValue vfBest)) (hreaches : nTargetValue ≤ nBest)
    (h : chooseBest nTargetValue vValue larger? vfBest nBest = .ok found) :
    (found.1 = chosen vValue vfBest ∨ ∃ coin, larger? = some coin ∧ found.1 = [coin]) ∧ found.2 = totalValue found.1 ∧
      ((∀ coin ∈ larger?, nTargetValue ≤ coin.nValue) → nTargetValue ≤ found.2) := by
  have hsubset : ∀ {found : List WalletCoin × Int},
      (addValues 0 (chosen vValue vfBest) >>= fun n => pure (chosen vValue vfBest, n)) = Except.ok found →
      found = (chosen vValue vfBest, nBest) := by
    intro found h
    obtain ⟨n, hn, heq⟩ := bind_eq_ok.mp h
    cases heq
    rw [addValues_eq_ok hn, hbest, zero_add]
  cases larger? with
  | none =>
    rw [hsubset h]
    exact ⟨.inl rfl, hbest, fun _ => hreaches⟩
  | some larger =>
    simp only [chooseBest, bind_eq_ok] at h
    obtain ⟨limit, _, h⟩ := h
    split at h
    · cases h
      exact ⟨.inr ⟨larger, rfl, rfl⟩, by simp, fun hlarger => hlarger larger rfl⟩
    · rw [hsubset h]
      exact ⟨.inl rfl, hbest, fun _ => hreaches⟩

theorem scanCoins_filter : ∀ (rest : List COutput) (s : CoinScan),
    scanCoins nTargetValue eligible rest s = scanCoins nTargetValue eligible (rest.filter eligible) s
  | [], s => rfl
  | output :: rest, s => by
    cases helig : eligible output with
    | false =>
      rw [List.filter_cons_of_neg (by simp [helig]), ← scanCoins_filter rest s, scanCoins, if_pos (by simp [helig])]
    | true =>
      rw [List.filter_cons_of_pos helig]
      unfold scanCoins
      simp only [scanCoins_filter rest]

variable {vCoins : List COutput} {coins : List WalletCoin}

/-- **`SelectCoinsMinConf`**: whatever the chance, the coins are among the eligible ones, their values sum to the value
    returned, and this reaches the target. -/
theorem selectCoinsMinConf_eligible {nConfMine nConfTheirs : Int} {nMaxAncestors : Nat} {nValueRet : Int}
    (h : selectCoinsMinConf nTargetValue r nConfMine nConfTheirs nMaxAncestors vCoins = .ok (some (coins, nValueRet))) :
    coins.Subperm ((vCoins.filter (COutput.eligible nConfMine nConfTheirs nMaxAncestors)).map COutput.toWalletCoin) ∧
      nValueRet = totalValue coins ∧ nTargetValue ≤ nValueRet := by
  rw [selectCoinsMinConf, scanCoins_filter, bind_eq_ok] at h
  obtain ⟨scan, hscan, h⟩ := h
  have hperm := ((r.perm vCoins).filter (COutput.eligible nConfMine nConfTheirs nMaxAncestors)).map
    COutput.toWalletCoin
  have hone : ∀ {coin : WalletCoin},
      coin ∈ ((r.shuffle vCoins).filter (COutput.eligible nConfMine nConfTheirs nMaxAncestors)).map
        COutput.toWalletCoin →
      [coin].Subperm ((vCoins.filter (COutput.eligible nConfMine nConfTheirs nMaxAncestors)).map
        COutput.toWalletCoin) :=
    fun hcoin => List.singleton_subperm_iff.mpr (hperm.subset hcoin)
  obtain ⟨hexact, hinv⟩ := scanCoins_inv scanInv_start hscan
  cases scan with
  | inl coin =>
    cases h
    obtain ⟨hcoin, hvalue⟩ := hexact coin rfl
    exact ⟨hone hcoin, by simp, hvalue.ge⟩
  | inr s =>
    obtain ⟨hsublist, htotal, hlarger⟩ := hinv s rfl
    have hsub := hsublist.subperm.trans hperm.subperm
    dsimp only at h
    split at h
    · rename_i heq
      obtain ⟨n, hn, h⟩ := bind_eq_ok.mp h
      cases h
      refine ⟨hsub, by rw [addValues_eq_ok hn, zero_add], ?_⟩
      rw [addValues_eq_ok hn, zero_add, ← htotal, heq]
    split at h
    · cases hcoin : s.coinLowestLarger with
      | none =>
        rw [hcoin] at h
        cases h
      | some coin =>
        rw [hcoin] at h
        cases h
        obtain ⟨hmem, hreaches⟩ := hlarger coin hcoin
        exact ⟨hone hmem, by simp, hreaches⟩
    · rename_i hreaches
      obtain ⟨⟨vfBest, nBest⟩, hsearch, h⟩ := bind_eq_ok.mp h
      have hsort := List.mergeSort_perm s.vValue fun a b => decide (b.nValue ≤ a.nValue)
      obtain ⟨hbest, hbestReaches⟩ :=
        searchSubsets_sound (htotal.trans (totalValue_perm hsort).symm) (Int.not_lt.mp hreaches) hsearch
      obtain ⟨found, hfound, heq⟩ := map_eq_ok.mp h
      cases heq
      obtain ⟨hfrom, hvalue, htarget⟩ := chooseBest_sound hbest hbestReaches hfound
      refine ⟨?_, hvalue, htarget fun coin hcoin => (hlarger coin hcoin).2⟩
      rcases hfrom with hsubset | ⟨coin, hcoin, hsingle⟩
      · rw [show coins = _ from hsubset]
        exact ((chosen_sublist _ _).subperm.trans hsort.subperm).trans hsub
      · rw [show coins = _ from hsingle]
        exact hone (hlarger coin hcoin).1

theorem selectCoinsMinConf_sound {nConfMine nConfTheirs : Int} {nMaxAncestors : Nat} {nValueRet : Int}
    (h : selectCoinsMinConf nTargetValue r nConfMine nConfTheirs nMaxAncestors vCoins = .ok (some (coins, nValueRet))) :
    coins.Subperm (vCoins.map COutput.toWalletCoin) ∧ nValueRet = totalValue coins ∧ nTargetValue ≤ nValueRet := by
  obtain ⟨hsub, hvalue, hreaches⟩ := selectCoinsMinConf_eligible h
  exact ⟨hsub.trans (List.filter_sublist.map _).subperm, hvalue, hreaches⟩

end Search

/-! ## `SelectCoinsToSpend` selects distinct coins of the wallet -/

structure WalletTxs.Spendable (w : WalletTxs) (coins : List WalletCoin) : Prop where
  nodup : (coins.map WalletCoin.outPoint).Nodup
  held : ∀ coin ∈ coins, w.Holds coin

theorem trySelections_sound {nTargetValue : Int} {vCoins : List COutput} {random : Nat → CoinRandomness} :
    ∀ {attempts : List (Int × Int × Nat)} {n : Nat} {coins : List WalletCoin} {nValueRet : Int},
      trySelections nTargetValue vCoins random n attempts = .ok (some (coins, nValueRet)) →
      coins.Subperm (vCoins.map COutput.toWalletCoin) ∧ nValueRet = totalValue coins ∧ nTargetValue ≤ nValueRet
  | [], _, _, _, h => by cases h
  | (nConfMine, nConfTheirs, nMaxAncestors) :: attempts, n, coins, nValueRet, h => by
    rw [trySelections, bind_eq_ok] at h
    obtain ⟨found?, hfound, h⟩ := h
    cases found? with
    | none => exact trySelections_sound h
    | some found =>
      cases h
      exact selectCoinsMinConf_sound hfound

variable {w : WalletTxs}

theorem WalletTxs.Holds.eq_of_outPoint {a b : WalletCoin} (ha : w.Holds a) (hb : w.Holds b)
    (h : a.outPoint = b.outPoint) : a = b := by
  obtain ⟨hhash, hi⟩ : a.tx.hash = b.tx.hash ∧ a.i = b.i := by
    simpa [WalletCoin.outPoint] using h
  unfold WalletTxs.Holds at ha hb
  rw [hhash, hb] at ha
  obtain ⟨tx, i, hlt⟩ := a
  cases ha
  cases hi
  rfl

namespace WalletTxs.Spendable

variable {w : WalletTxs} {coins coins' : List WalletCoin}

theorem of_subperm (h : w.Spendable coins) (hsub : coins'.Subperm coins) : w.Spendable coins' := by
  obtain ⟨l, hperm, hsublist⟩ := hsub
  exact ⟨((hperm.map _).nodup_iff).mp (h.nodup.sublist (hsublist.map _)),
    fun coin hcoin => h.held coin (hsublist.subset (hperm.symm.subset hcoin))⟩

theorem append (h : w.Spendable coins) (h' : w.Spendable coins') (hdisjoint : ∀ coin ∈ coins, coin ∉ coins') :
    w.Spendable (coins ++ coins') := by
  refine ⟨?_, fun coin hcoin => (List.mem_append.mp hcoin).elim (h.held coin) (h'.held coin)⟩
  rw [List.map_append, List.nodup_append]
  refine ⟨h.nodup, h'.nodup, fun op hop op' hop' heq => ?_⟩
  obtain ⟨coin, hcoin, rfl⟩ := List.mem_map.mp hop
  obtain ⟨coin', hcoin', rfl⟩ := List.mem_map.mp hop'
  have heq' := (h.held coin hcoin).eq_of_outPoint (h'.held coin' hcoin') heq
  exact hdisjoint coin hcoin (heq' ▸ hcoin')

end WalletTxs.Spendable

theorem WalletTxs.coinAt_eq_some {outPoint : COutPoint} {coin : WalletCoin} (h : w.coinAt outPoint = some coin) :
    coin.outPoint = outPoint ∧ w.Holds coin := by
  unfold WalletTxs.coinAt at h
  split at h
  · cases h
  · rename_i tx htx
    split at h
    · cases h
      have hhash := w.hash_eq htx
      refine ⟨?_, ?_⟩
      · simp only [WalletCoin.outPoint, hhash]
      · unfold WalletTxs.Holds
        rw [hhash, htx]
    · cases h

theorem presetCoins_eq_some : ∀ {inputs : List COutPoint} {coins : List WalletCoin},
    presetCoins w inputs = some coins → coins.map WalletCoin.outPoint = inputs ∧ ∀ coin ∈ coins, w.Holds coin
  | [], coins, h => by
    cases h
    exact ⟨rfl, nofun⟩
  | input :: inputs, coins, h => by
    unfold presetCoins at h
    rw [List.mapM_cons] at h
    obtain ⟨coin, hcoin, h⟩ := Option.bind_eq_some_iff.mp h
    obtain ⟨rest, hrest, h⟩ := Option.bind_eq_some_iff.mp h
    cases h
    obtain ⟨hout, hheld⟩ := WalletTxs.coinAt_eq_some hcoin
    obtain ⟨houts, hheldRest⟩ := presetCoins_eq_some hrest
    rw [List.map_cons, hout, houts, List.forall_mem_cons]
    exact ⟨rfl, hheld, hheldRest⟩

theorem presetCoins_spendable {coinControl : Option CCoinControl}
    (h : presetCoins w (coinControl.elim [] CCoinControl.setSelected) = some coins) : w.Spendable coins := by
  obtain ⟨hout, hheld⟩ := presetCoins_eq_some h
  refine ⟨?_, hheld⟩
  rw [hout]
  cases coinControl with
  | none => exact List.nodup_nil
  | some cc => exact cc.selected_nodup

section ToSpend

variable {w : WalletTxs} {opts : SelectionOptions} {vAvailableCoins : List COutput} {nTargetValue nValueRet : Int}
  {coinControl : Option CCoinControl} {random : Nat → CoinRandomness} {coins : List WalletCoin}

/-- Without `onlySelected` the preset coins are selected, and other available coins for what is missing. -/
theorem selectCoinsToSpend_cases (honly : onlySelected coinControl = false)
    (h : selectCoinsToSpend w opts vAvailableCoins nTargetValue coinControl random = .ok (some (coins, nValueRet))) :
    ∃ preset others nOthers, presetCoins w (coinControl.elim [] CCoinControl.setSelected) = some preset ∧
      coins = others ++ preset ∧ nValueRet = nOthers + totalValue preset ∧ nOthers = totalValue others ∧
      others.Subperm ((vAvailableCoins.filter fun out => !preset.contains out.toWalletCoin).map COutput.toWalletCoin) ∧
      nTargetValue ≤ nValueRet := by
  rw [selectCoinsToSpend, if_neg (by simp [honly])] at h
  split at h
  · cases h
  rename_i preset hpreset
  obtain ⟨nPreset, hnPreset, h⟩ := bind_eq_ok.mp h
  have hvalue : nPreset = totalValue preset := by rw [addValues_eq_ok hnPreset, zero_add]
  split at h
  · rw [ok_bind] at h
    obtain ⟨n, hn, h⟩ := bind_eq_ok.mp h
    cases h
    refine ⟨preset, [], 0, hpreset, rfl, ?_, rfl, List.nil_subperm, ?_⟩
    · rw [checkInt64_eq_ok hn, hvalue]
    · rw [checkInt64_eq_ok hn]
      omega
  · obtain ⟨nRest, hnRest, h⟩ := bind_eq_ok.mp h
    obtain ⟨found?, hfound, h⟩ := bind_eq_ok.mp h
    cases found? with
    | none => cases h
    | some found =>
      obtain ⟨others, nOthers⟩ := found
      obtain ⟨n, hn, h⟩ := bind_eq_ok.mp h
      cases h
      obtain ⟨hsub, hothers, hreaches⟩ := trySelections_sound hfound
      refine ⟨preset, others, nOthers, hpreset, rfl, ?_, hothers, hsub, ?_⟩
      · rw [checkInt64_eq_ok hn, hvalue]
      · rw [checkInt64_eq_ok hnRest] at hreaches
        rw [checkInt64_eq_ok hn]
        omega

/-- **`SelectCoinsToSpend`**: whatever the chance, the selected coins are distinct coins of the wallet, their values
    sum to the returned value, and this reaches the target. -/
theorem selectCoinsToSpend_sound (havailable : w.Spendable (vAvailableCoins.map COutput.toWalletCoin))
    (h : selectCoinsToSpend w opts vAvailableCoins nTargetValue coinControl random = .ok (some (coins, nValueRet))) :
    w.Spendable coins ∧ nValueRet = totalValue coins ∧ nTargetValue ≤ nValueRet := by
  cases honly : onlySelected coinControl with
  | true =>
    rw [selectCoinsToSpend, if_pos honly] at h
    obtain ⟨n, hn, h⟩ := bind_eq_ok.mp h
    split at h
    · rename_i hreaches
      cases h
      refine ⟨havailable.of_subperm (List.filter_sublist.map _).subperm, ?_, hreaches⟩
      rw [addValues_eq_ok hn, zero_add]
    · cases h
  | false =>
    obtain ⟨preset, others, nOthers, hpreset, rfl, hvalue, hothers, hsub, hreaches⟩ := selectCoinsToSpend_cases honly h
    have hleft := havailable.of_subperm ((List.filter_sublist (p := fun out => !preset.contains out.toWalletCoin)).map
      COutput.toWalletCoin).subperm
    refine ⟨(hleft.of_subperm hsub).append (presetCoins_spendable hpreset) fun coin hcoin hpre => ?_, ?_, hreaches⟩
    · obtain ⟨out, hout, rfl⟩ := List.mem_map.mp (hsub.subset hcoin)
      have hnot := (List.mem_filter.mp hout).2
      simp [hpre] at hnot
    · rw [hvalue, hothers, totalValue_append]

theorem setSelected_subset_selected {cc : CCoinControl} (honly : onlySelected (some cc) = false)
    (h : selectCoinsToSpend w opts vAvailableCoins nTargetValue (some cc) random = .ok (some (coins, nValueRet))) :
    cc.setSelected ⊆ coins.map WalletCoin.outPoint := by
  obtain ⟨preset, others, nOthers, hpreset, rfl, -⟩ := selectCoinsToSpend_cases honly h
  rw [List.map_append, (presetCoins_eq_some hpreset).1]
  exact List.subset_append_right _ _

end ToSpend

end KrovaCoin
