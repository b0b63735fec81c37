import KrovaCoin.Wallet.CreateTransaction
import KrovaCoin.Kernel

/-!
# Coinstakes of the wallet (`wallet/wallet.cpp`, `script/ismine.cpp`)

The wallet tries one stakeable coin after the other; the first whose kernel is good is staked. While a coin is tried the
world goes on: a block may arrive, the wallet may be locked, the coin may be spent. What it answers is the `Visit` of
the coin.

* `isMine`, `stakeableCoins` — `IsMine` of a script, `CWallet::StakeableCoins`.

Principal result: `createCoinStake_complete_iff`.
-/

namespace KrovaCoin

open Lib

/-! ## Which coins can be staked -/

/-- `isminetype` of a script. -/
inductive IsMineType where
  | ISMINE_NO
  | ISMINE_WATCH_ONLY
  | ISMINE_SPENDABLE
  | ISMINE_COLD
  | ISMINE_SPENDABLE_DELEGATED
  deriving DecidableEq, Repr

/-- `CKeyStore`: keys and scripts by their hashes. -/
structure CKeyStore where
  haveKey : List UInt8 → Bool
  getCScript : List UInt8 → Option CScript
  haveWatchOnly : CScript → Bool

def haveKeys (c : Crypto) (keystore : CKeyStore) (pubkeys : List (List UInt8)) : Nat :=
  pubkeys.countP fun pubkey => keystore.haveKey (c.hash160 pubkey)

/-- `IsMine(keystore, scriptPubKey)`; scripts in scripts are followed to the given depth. -/
def isMine (c : Crypto) (keystore : CKeyStore) : Nat → CScript → IsMineType
  | 0, _ => .ISMINE_NO
  | depth + 1, scriptPubKey =>
    let watchOnly : IsMineType :=
      if keystore.haveWatchOnly scriptPubKey then .ISMINE_WATCH_ONLY else .ISMINE_NO
    match solver scriptPubKey with
    | some (.TX_PUBKEY, pubkey :: _) =>
      if keystore.haveKey (c.hash160 pubkey) then .ISMINE_SPENDABLE else watchOnly
    | some (.TX_PUBKEYHASH, keyID :: _) | some (.TX_EXCHANGEADDR, keyID :: _) =>
      if keystore.haveKey keyID then .ISMINE_SPENDABLE else watchOnly
    | some (.TX_SCRIPTHASH, scriptID :: _) =>
      match keystore.getCScript scriptID with
      | some subscript =>
        match isMine c keystore depth subscript with
        | .ISMINE_NO => watchOnly
        | ret => ret
      | none => watchOnly
    | some (.TX_COLDSTAKE, stakeKeyID :: ownerKeyID :: _) =>
      if keystore.haveKey ownerKeyID then .ISMINE_SPENDABLE_DELEGATED
      else if keystore.haveKey stakeKeyID then .ISMINE_COLD
      else watchOnly
    | some (.TX_MULTISIG, _ :: vSolutions) =>
      if haveKeys c keystore vSolutions.dropLast = vSolutions.dropLast.length then .ISMINE_SPENDABLE
      else watchOnly
    | _ => watchOnly

/-- A transaction of `mapWallet`, with what `CheckTXAvailability` asks about it. -/
structure StakeWalletTx where
  tx : CTransaction
  isFinal : Bool
  isTrusted : Bool
  nBlocksToMaturity : Int
  nDepth : Int
  inMempool : Bool

structure StakingWallet where
  keystore : CKeyStore
  /-- `GetKey`: the private key can be had. -/
  getKey : List UInt8 → Bool
  mapWallet : List StakeWalletTx
  isSpent : COutPoint → Bool
  isLockedCoin : COutPoint → Bool
  hasDelegator : CTxOut → Bool
  /-- Whether cold staking is on: `-coldstaking` without `SPORK_19_COLDSTAKING_MAINTENANCE`. -/
  fIncludeColdStaking : Bool
  nStakeSplitThreshold : Int
  /-- How deep `IsMine` follows scripts in scripts. -/
  scriptDepth : Nat

/-- `CheckTXAvailability` with `fOnlySafe`. -/
def checkTXAvailability (pcoin : StakeWalletTx) : Bool :=
  pcoin.isFinal && pcoin.isTrusted && !decide (pcoin.nBlocksToMaturity > 0) &&
    !(decide (pcoin.nDepth = 0) && !pcoin.inMempool)

/-- `CheckOutputAvailability` without coin control, delegated and locked coins: available and
spendable. -/
def checkOutputAvailability (c : Crypto) (w : StakingWallet) (coin : WalletCoin) : Bool :=
  let mine := isMine c w.keystore w.scriptDepth coin.txOut.scriptPubKey
  !w.isSpent coin.outPoint && mine != .ISMINE_NO && !w.isLockedCoin coin.outPoint &&
    decide (0 < coin.nValue) &&
    !(mine == .ISMINE_COLD && (!w.fIncludeColdStaking || !w.hasDelegator coin.txOut)) &&
    mine != .ISMINE_SPENDABLE_DELEGATED &&
    (mine == .ISMINE_SPENDABLE || w.fIncludeColdStaking && mine == .ISMINE_COLD)

/-- The outputs of a transaction as coins. -/
def coinsOf (tx : CTransaction) : List WalletCoin :=
  (List.range tx.vout.length).filterMap fun index =>
    if h : (UInt32.ofNat index).toNat < tx.vout.length then some ⟨tx, UInt32.ofNat index, h⟩ else none

def stakeableCoins (p : Params) (c : Crypto) (w : StakingWallet) : List WalletCoin :=
  w.mapWallet.flatMap fun pcoin =>
    if checkTXAvailability pcoin && decide (p.nStakeMinDepth ≤ pcoin.nDepth) then
      (coinsOf pcoin.tx).filter (checkOutputAvailability c w)
    else []

/-! ## The outputs of a coinstake -/

/-- The script types and keys that `CreateCoinstakeOuts` accepts. -/
def canStake (w : StakingWallet) (scriptPubKeyKernel : CScript) : Bool :=
  match solver scriptPubKeyKernel with
  | some (.TX_PUBKEY, _) => true
  | some (.TX_PUBKEYHASH, keyID :: _) | some (.TX_COLDSTAKE, keyID :: _) => w.getKey keyID
  | _ => false

/-- How many outputs the stake is split into; `nSplit` is converted to an `int`. -/
def stakeOutputs (nStakeSplitThreshold nTotal : Int) : Nat :=
  if nStakeSplitThreshold > 0 then
    let nSplit := (nTotal.tdiv nStakeSplitThreshold).bmod 0x100000000
    let txSizeMax : Nat := MAX_STANDARD_TX_SIZE >>> 11
    if nSplit > 1 then (min nSplit txSizeMax).toNat else 1
  else 1

/-- `CWallet::CreateCoinstakeOuts`; `none` where it returns `false`. -/
def createCoinstakeOuts (w : StakingWallet) (stakePrevout : CTxOut) (nTotal : Int) : Option (List CTxOut) :=
  if canStake w stakePrevout.scriptPubKey then
    some (List.replicate (stakeOutputs w.nStakeSplitThreshold nTotal) ⟨0, stakePrevout.scriptPubKey⟩)
  else none

/-- The credit spread over the outputs: a share for each, the rest for the last. -/
def setOutputAmounts (nShare : Int) : List CTxOut → Int → List CTxOut
  | [], _ => []
  | [out], nRemaining => [{ out with nValue := out.nValue + nRemaining }]
  | out :: vout, nRemaining =>
    { out with nValue := nShare } :: setOutputAmounts nShare vout (nRemaining - nShare)

def DEFAULT_BLOCK_MAX_SIZE : Nat := 750000

/-! ## The search -/

/-- What the world answers while a coin is tried. -/
structure Visit where
  /-- `GetLastBlockHeightLockWallet() != pindexPrev->nHeight`. -/
  newBlock : Bool
  /-- `IsLocked() || ShutdownRequested()`. -/
  stopped : Bool
  /-- `IsSpent(outPoint)`. -/
  isSpent : Bool
  /-- What `Stake` returns, and the time it sets. -/
  kernel : Bool
  nTimeTx : Int

/-- The variables of `CreateCoinStake`, and `availableCoins` as far as it has been walked. -/
structure StakeSearch where
  fKernelFound : Bool
  txNew : CTransaction
  nTxNewTime : Int
  availableCoins : List WalletCoin

section Search

variable (w : StakingWallet) (nHeight : Int) (stopOnNewBlock : Bool)

/-- The transaction before the search: only the mark of a coinstake. -/
def markedCoinStake : CTransaction := newTransaction [] [⟨0, []⟩]

def stakeCoin (txNew : CTransaction) (coin : WalletCoin) (vout : List CTxOut) (nCredit : Int) : CTransaction :=
  { txNew with
    vin := txNew.vin ++ [⟨coin.outPoint, [], SEQUENCE_FINAL⟩]
    vout := txNew.vout ++ setOutputAmounts (nCredit.tdiv vout.length) vout nCredit }

/-- The loop of `CreateCoinStake` over the coins after `pindexPrev` at `nHeight`: what it returns
and what it leaves. -/
def searchKernel : List (WalletCoin × Visit) → StakeSearch → Checked (Bool × StakeSearch)
  | [], s => .ok (s.fKernelFound, s)
  | (coin, visit) :: rest, s =>
    let unchanged := s.availableCoins ++ coin :: rest.map Prod.fst
    let passed := s.availableCoins ++ [coin]
    if stopOnNewBlock && visit.newBlock then .ok (false, { s with availableCoins := unchanged })
    else if visit.stopped then .ok (false, { s with availableCoins := unchanged })
    else if visit.isSpent then searchKernel rest s
    else if !visit.kernel then
      searchKernel rest ⟨false, s.txNew, visit.nTimeTx, passed⟩
    else do
      let nCredit ← checkInt64 coin.nValue
      let nBlockValue ← getBlockValue (nHeight + 1)
      let nCredit ← checkInt64 (nCredit + nBlockValue)
      match createCoinstakeOuts w coin.txOut nCredit with
      | none => searchKernel rest ⟨true, s.txNew, visit.nTimeTx, passed⟩
      | some vout =>
        let txNew := stakeCoin s.txNew coin vout nCredit
        return (!decide (txNew.getTotalSize ≥ DEFAULT_BLOCK_MAX_SIZE / 5),
          ⟨true, txNew, visit.nTimeTx, unchanged⟩)

/-- `CWallet::CreateCoinStake`, the coins in the order in which they are tried. -/
def createCoinStake (availableCoins : List (WalletCoin × Visit)) : Checked (Bool × StakeSearch) :=
  searchKernel w nHeight stopOnNewBlock availableCoins ⟨false, markedCoinStake, 0, []⟩

end Search

/-! ## The amounts -/

theorem stakeOutputs_pos (nStakeSplitThreshold nTotal : Int) : 0 < stakeOutputs nStakeSplitThreshold nTotal := by
  have hmax : (0 : Int) < ((MAX_STANDARD_TX_SIZE >>> 11 : Nat) : Int) := by decide
  unfold stakeOutputs
  dsimp only
  split
  · split
    · rw [Int.lt_toNat]
      omega
    · exact Nat.zero_lt_one
  · exact Nat.zero_lt_one

section Amounts

variable (nShare : Int) (script : CScript) (n : Nat) (nRemaining : Int)

theorem setOutputAmounts_succ : setOutputAmounts nShare (List.replicate (n + 1 + 1) ⟨0, script⟩) nRemaining =
    ⟨nShare, script⟩ :: setOutputAmounts nShare (List.replicate (n + 1) ⟨0, script⟩) (nRemaining - nShare) := rfl

theorem outputsValue_setOutputAmounts :
    outputsValue (setOutputAmounts nShare (List.replicate (n + 1) ⟨0, script⟩) nRemaining) = nRemaining := by
  induction n generalizing nRemaining with
  | zero => simp [setOutputAmounts, outputsValue]
  | succ n ih =>
    have hsum := ih (nRemaining - nShare)
    rw [setOutputAmounts_succ]
    simp only [outputsValue, List.map_cons, List.sum_cons] at hsum ⊢
    omega

theorem scriptPubKey_setOutputAmounts :
    (setOutputAmounts nShare (List.replicate n ⟨0, script⟩) nRemaining).map CTxOut.scriptPubKey
      = List.replicate n script := by
  induction n generalizing nRemaining with
  | zero => rfl
  | succ n ih =>
    cases n with
    | zero => rfl
    | succ n =>
      rw [setOutputAmounts_succ, List.map_cons, ih]
      rfl

end Amounts

/-- A complete coinstake of a coin that is worth `nBlockValue` more than the coin. -/
structure StakeComplete (nBlockValue : Int) (coin : WalletCoin) (tx : CTransaction) : Prop where
  vin : tx.vin = [⟨coin.outPoint, [], SEQUENCE_FINAL⟩]
  vout : ∃ marker vout, tx.vout = marker :: vout ∧ marker.isEmpty = true ∧ vout ≠ [] ∧
    (∀ out ∈ vout, out.scriptPubKey = coin.txOut.scriptPubKey) ∧
    outputsValue vout = coin.nValue + nBlockValue

theorem stakeCoin_complete {w : StakingWallet} {coin : WalletCoin} {nBlockValue : Int} {vout : List CTxOut}
    (h : createCoinstakeOuts w coin.txOut (coin.nValue + nBlockValue) = some vout) :
    StakeComplete nBlockValue coin (stakeCoin markedCoinStake coin vout (coin.nValue + nBlockValue)) := by
  unfold createCoinstakeOuts at h
  split at h
  · cases h
    obtain ⟨n, hn⟩ := Nat.exists_eq_succ_of_ne_zero
      (stakeOutputs_pos w.nStakeSplitThreshold (coin.nValue + nBlockValue)).ne'
    rw [hn]
    generalize hshare : (coin.nValue + nBlockValue).tdiv
      (List.replicate n.succ (CTxOut.mk 0 coin.txOut.scriptPubKey)).length = nShare
    have hscripts := scriptPubKey_setOutputAmounts nShare coin.txOut.scriptPubKey (n + 1)
      (coin.nValue + nBlockValue)
    refine ⟨rfl, ⟨0, []⟩, setOutputAmounts nShare
      (List.replicate (n + 1) ⟨0, coin.txOut.scriptPubKey⟩) (coin.nValue + nBlockValue), ?_, rfl,
      ?_, ?_, outputsValue_setOutputAmounts _ _ _ _⟩
    · simp only [stakeCoin, hshare]
      rfl
    · intro hnil
      rw [hnil] at hscripts
      simp at hscripts
    · intro out hout
      have hmem := List.mem_map_of_mem (f := CTxOut.scriptPubKey) hout
      rw [hscripts] at hmem
      exact List.eq_of_mem_replicate hmem
  · cases h

/-! ## The exits of the search -/

/-- The search is not given up while the coin is tried. -/
def Visit.goesOn (stopOnNewBlock : Bool) (visit : Visit) : Prop :=
  (stopOnNewBlock && visit.newBlock) = false ∧ visit.stopped = false

/-- The coin with the reward is an amount. -/
def CreditFits (nBlockValue : Int) (coin : WalletCoin) : Prop :=
  InInt64 coin.nValue ∧ InInt64 (coin.nValue + nBlockValue)

/-- A coin with a kernel for which there are no outputs. -/
structure Unpayable (w : StakingWallet) (nBlockValue : Int) (coin : WalletCoin) (visit : Visit) : Prop where
  unspent : visit.isSpent = false
  kernel : visit.kernel = true
  script : canStake w coin.txOut.scriptPubKey = false
  fits : CreditFits nBlockValue coin

/-- The last coin that is tried has a kernel and no outputs: no coin before it is staked, and the
coins after it have been spent.  With `found`, such a coin has already been tried. -/
def EndsUnpaid (w : StakingWallet) (nBlockValue : Int) (stopOnNewBlock found : Bool)
    (coins : List (WalletCoin × Visit)) : Prop :=
  (∀ x ∈ coins, x.2.goesOn stopOnNewBlock) ∧
    (found = true ∧ (∀ x ∈ coins, x.2.isSpent = true) ∨
      ∃ before coin visit after, coins = before ++ (coin, visit) :: after ∧
        (∀ x ∈ before, x.2.isSpent = true ∨ x.2.kernel = false ∨ Unpayable w nBlockValue x.1 x.2) ∧
        Unpayable w nBlockValue coin visit ∧ ∀ x ∈ after, x.2.isSpent = true)

section Exits

variable {w : StakingWallet} {nBlockValue : Int} {stopOnNewBlock found : Bool} {coin : WalletCoin}
  {rest : List (WalletCoin × Visit)} {s : StakeSearch}

theorem endsUnpaid_nil : EndsUnpaid w nBlockValue stopOnNewBlock found [] ↔ found = true := by
  constructor
  · rintro ⟨-, ⟨h, -⟩ | ⟨before, coin, visit, after, h, -⟩⟩
    · exact h
    · simp at h
  · exact fun h => ⟨by simp, .inl ⟨h, by simp⟩⟩

variable {visit : Visit}

theorem endsUnpaid_cons : EndsUnpaid w nBlockValue stopOnNewBlock found ((coin, visit) :: rest) ↔
      visit.goesOn stopOnNewBlock ∧ (visit.isSpent = true ∧ EndsUnpaid w nBlockValue stopOnNewBlock found rest ∨
          visit.isSpent = false ∧ visit.kernel = false ∧ EndsUnpaid w nBlockValue stopOnNewBlock false rest ∨
          Unpayable w nBlockValue coin visit ∧ EndsUnpaid w nBlockValue stopOnNewBlock true rest) := by
  constructor
  · rintro ⟨hgo, hend⟩
    have hrest : ∀ x ∈ rest, x.2.goesOn stopOnNewBlock := fun x hx => hgo x (List.mem_cons_of_mem _ hx)
    refine ⟨hgo _ List.mem_cons_self, ?_⟩
    rcases hend with ⟨hfound, hspent⟩ | ⟨before, coin', visit', after, heq, hbefore, hun, hafter⟩
    · exact .inl ⟨hspent _ List.mem_cons_self, hrest,
        .inl ⟨hfound, fun x hx => hspent x (List.mem_cons_of_mem _ hx)⟩⟩
    · cases before with
      | nil =>
        cases heq
        exact .inr (.inr ⟨hun, hrest, .inl ⟨rfl, hafter⟩⟩)
      | cons y before =>
        cases heq
        have hlater : ∀ found, EndsUnpaid w nBlockValue stopOnNewBlock found
            (before ++ (coin', visit') :: after) := fun found =>
          ⟨hrest, .inr ⟨before, coin', visit', after, rfl,
            fun x hx => hbefore x (List.mem_cons_of_mem _ hx), hun, hafter⟩⟩
        cases hspent : visit.isSpent with
        | true => exact .inl ⟨rfl, hlater _⟩
        | false =>
          rcases hbefore _ List.mem_cons_self with h | h | h
          · rw [hspent] at h
            cases h
          · exact .inr (.inl ⟨rfl, h, hlater _⟩)
          · exact .inr (.inr ⟨h, hlater _⟩)
  · rintro ⟨hgo, hcases⟩
    have hall : ∀ {found}, EndsUnpaid w nBlockValue stopOnNewBlock found rest →
        ∀ x ∈ (coin, visit) :: rest, x.2.goesOn stopOnNewBlock := fun h =>
      List.forall_mem_cons.mpr ⟨hgo, h.1⟩
    rcases hcases with ⟨hspent, h⟩ | ⟨-, hkernel, h⟩ | ⟨hun, h⟩
    · refine ⟨hall h, ?_⟩
      rcases h.2 with ⟨hfound, hall'⟩ | ⟨before, coin', visit', after, rfl, hbefore, hun, hafter⟩
      · exact .inl ⟨hfound, List.forall_mem_cons.mpr ⟨hspent, hall'⟩⟩
      · exact .inr ⟨(coin, visit) :: before, coin', visit', after, rfl,
          List.forall_mem_cons.mpr ⟨.inl hspent, hbefore⟩, hun, hafter⟩
    · refine ⟨hall h, ?_⟩
      rcases h.2 with ⟨hfound, -⟩ | ⟨before, coin', visit', after, rfl, hbefore, hun, hafter⟩
      · cases hfound
      · exact .inr ⟨(coin, visit) :: before, coin', visit', after, rfl,
          List.forall_mem_cons.mpr ⟨.inr (.inl hkernel), hbefore⟩, hun, hafter⟩
    · refine ⟨hall h, .inr ?_⟩
      rcases h.2 with ⟨-, hspent⟩ | ⟨before, coin', visit', after, rfl, hbefore, hun', hafter⟩
      · exact ⟨[], coin, visit, rest, rfl, by simp, hun, hspent⟩
      · exact ⟨(coin, visit) :: before, coin', visit', after, rfl,
          List.forall_mem_cons.mpr ⟨.inr (.inr hun), hbefore⟩, hun', hafter⟩

variable {nHeight : Int}

theorem searchKernel_credit (hvalue : getBlockValue (nHeight + 1) = .ok nBlockValue)
    (hgo : visit.goesOn stopOnNewBlock) (hspent : visit.isSpent = false) (hkernel : visit.kernel = true)
    (hfits : CreditFits nBlockValue coin) : searchKernel w nHeight stopOnNewBlock ((coin, visit) :: rest) s =
      match createCoinstakeOuts w coin.txOut (coin.nValue + nBlockValue) with
      | none => searchKernel w nHeight stopOnNewBlock rest
          ⟨true, s.txNew, visit.nTimeTx, s.availableCoins ++ [coin]⟩
      | some vout => .ok
          (!decide ((stakeCoin s.txNew coin vout (coin.nValue + nBlockValue)).getTotalSize
            ≥ DEFAULT_BLOCK_MAX_SIZE / 5),
          ⟨true, stakeCoin s.txNew coin vout (coin.nValue + nBlockValue), visit.nTimeTx,
            s.availableCoins ++ coin :: rest.map Prod.fst⟩) := by
  rw [searchKernel]
  simp only [hgo.1, hgo.2, hspent, hkernel, Bool.false_eq_true, if_false, Bool.not_true, checkInt64,
    if_pos hfits.1, if_pos hfits.2, hvalue, ok_bind]
  rfl

theorem searchKernel_spent (hgo : visit.goesOn stopOnNewBlock) (hspent : visit.isSpent = true) :
    searchKernel w nHeight stopOnNewBlock ((coin, visit) :: rest) s = searchKernel w nHeight stopOnNewBlock rest s := by
  rw [searchKernel]
  simp only [hgo.1, hgo.2, hspent, Bool.false_eq_true, if_false, if_true]

theorem searchKernel_noKernel (hgo : visit.goesOn stopOnNewBlock) (hspent : visit.isSpent = false)
    (hkernel : visit.kernel = false) : searchKernel w nHeight stopOnNewBlock ((coin, visit) :: rest) s
      = searchKernel w nHeight stopOnNewBlock rest ⟨false, s.txNew, visit.nTimeTx, s.availableCoins ++ [coin]⟩ := by
  rw [searchKernel]
  simp only [hgo.1, hgo.2, hspent, hkernel, Bool.false_eq_true, if_false, Bool.not_false, if_true]

variable {r : StakeSearch}

theorem goesOn_of_searchKernel (h : searchKernel w nHeight stopOnNewBlock ((coin, visit) :: rest) s = .ok (true, r)) :
    visit.goesOn stopOnNewBlock := by
  rw [searchKernel] at h
  dsimp only at h
  split at h
  · cases h
  · rename_i hblock
    split at h
    · cases h
    · rename_i hstop
      exact ⟨by simpa using hblock, by simpa using hstop⟩

theorem creditFits_of_searchKernel (hvalue : getBlockValue (nHeight + 1) = .ok nBlockValue) {r : Bool × StakeSearch}
    (hgo : visit.goesOn stopOnNewBlock) (hspent : visit.isSpent = false) (hkernel : visit.kernel = true)
    (h : searchKernel w nHeight stopOnNewBlock ((coin, visit) :: rest) s = .ok r) : CreditFits nBlockValue coin := by
  rw [searchKernel] at h
  simp only [hgo.1, hgo.2, hspent, hkernel, Bool.false_eq_true, if_false, Bool.not_true, hvalue,
    ok_bind, bind_eq_ok] at h
  obtain ⟨nCredit, hcoin, nTotal, hsum, -⟩ := h
  rw [checkInt64_eq_ok hcoin] at hsum
  exact ⟨inInt64_of_checkInt64 hcoin, inInt64_of_checkInt64 hsum⟩

variable {coins : List (WalletCoin × Visit)}

/-- **Every exit of the search with a kernel**: a complete coinstake, or no output for the last
coin tried. -/
theorem searchKernel_found (hvalue : getBlockValue (nHeight + 1) = .ok nBlockValue) (hs : s.txNew = markedCoinStake)
    (h : searchKernel w nHeight stopOnNewBlock coins s = .ok (true, r)) :
    (∃ x ∈ coins, x.2.kernel = true ∧ StakeComplete nBlockValue x.1 r.txNew) ∨
      EndsUnpaid w nBlockValue stopOnNewBlock s.fKernelFound coins := by
  induction coins generalizing s with
  | nil =>
    rw [searchKernel, Except.ok.injEq, Prod.mk.injEq] at h
    exact .inr (endsUnpaid_nil.mpr h.1)
  | cons x rest ih =>
    obtain ⟨coin, visit⟩ := x
    have hgo := goesOn_of_searchKernel h
    have hlater : (∃ x ∈ rest, x.2.kernel = true ∧ StakeComplete nBlockValue x.1 r.txNew) →
        ∃ x ∈ (coin, visit) :: rest, x.2.kernel = true ∧ StakeComplete nBlockValue x.1 r.txNew :=
      fun ⟨x, hx, hstake⟩ => ⟨x, List.mem_cons_of_mem _ hx, hstake⟩
    rw [endsUnpaid_cons]
    cases hspent : visit.isSpent with
    | true =>
      rw [searchKernel_spent hgo hspent] at h
      exact (ih hs h).imp hlater fun hend => ⟨hgo, .inl ⟨rfl, hend⟩⟩
    | false =>
      cases hkernel : visit.kernel with
      | false =>
        rw [searchKernel_noKernel hgo hspent hkernel] at h
        refine (ih ?_ h).imp hlater fun hend => ⟨hgo, .inr (.inl ⟨rfl, rfl, hend⟩)⟩
        exact hs
      | true =>
        have hfits := creditFits_of_searchKernel hvalue hgo hspent hkernel h
        rw [searchKernel_credit hvalue hgo hspent hkernel hfits] at h
        cases houts : createCoinstakeOuts w coin.txOut (coin.nValue + nBlockValue) with
        | none =>
          rw [houts] at h
          have hscript : canStake w coin.txOut.scriptPubKey = false := by
            by_contra hcan
            rw [createCoinstakeOuts, if_pos (by simpa using hcan)] at houts
            cases houts
          dsimp only at h
          refine (ih ?_ h).imp hlater fun hend =>
            ⟨hgo, .inr (.inr ⟨⟨hspent, hkernel, hscript, hfits⟩, hend⟩)⟩
          exact hs
        | some vout =>
          rw [houts, hs] at h
          simp only [Except.ok.injEq, Prod.mk.injEq] at h
          obtain ⟨-, rfl⟩ := h
          exact .inl ⟨(coin, visit), List.mem_cons_self, hkernel, stakeCoin_complete houts⟩

/-- A search that ends with an unpaid kernel reports it, and leaves the transaction as it was. -/
theorem searchKernel_of_endsUnpaid (hvalue : getBlockValue (nHeight + 1) = .ok nBlockValue)
    (h : EndsUnpaid w nBlockValue stopOnNewBlock s.fKernelFound coins) :
    ∃ r, searchKernel w nHeight stopOnNewBlock coins s = .ok (true, r) ∧ r.txNew = s.txNew := by
  induction coins generalizing s with
  | nil =>
    rw [searchKernel, endsUnpaid_nil.mp h]
    exact ⟨s, rfl, rfl⟩
  | cons x rest ih =>
    obtain ⟨coin, visit⟩ := x
    obtain ⟨hgo, ⟨hspent, hend⟩ | ⟨hspent, hkernel, hend⟩ | ⟨hun, hend⟩⟩ := endsUnpaid_cons.mp h
    · rw [searchKernel_spent hgo hspent]
      exact ih hend
    · rw [searchKernel_noKernel hgo hspent hkernel]
      exact ih hend
    · rw [searchKernel_credit hvalue hgo hun.unspent hun.kernel hun.fits, createCoinstakeOuts,
        if_neg (by simp [hun.script])]
      exact ih hend

end Exits

/-! ## Coins that can be staked and cannot be paid -/

/-- **A coinstake that is reported as found is complete**, exactly if the last coin that is tried is
not one with a kernel for which `CreateCoinstakeOuts` has no outputs. -/
theorem createCoinStake_complete_iff (w : StakingWallet) (nHeight nBlockValue : Int)
    (hvalue : getBlockValue (nHeight + 1) = .ok nBlockValue) (stopOnNewBlock : Bool)
    (coins : List (WalletCoin × Visit)) :
    (∀ r, createCoinStake w nHeight stopOnNewBlock coins = .ok (true, r) →
      ∃ x ∈ coins, x.2.kernel = true ∧ StakeComplete nBlockValue x.1 r.txNew) ↔
    ¬ EndsUnpaid w nBlockValue stopOnNewBlock false coins := by
  constructor
  · intro hall hend
    obtain ⟨r, hrun, htx⟩ := searchKernel_of_endsUnpaid hvalue
      (s := ⟨false, markedCoinStake, 0, []⟩) hend
    obtain ⟨x, -, -, hstake⟩ := hall r hrun
    have hvin := hstake.vin
    rw [htx] at hvin
    cases hvin
  · intro hend r hrun
    exact (searchKernel_found hvalue rfl hrun).resolve_right hend

/-- A wallet with one key and one output. -/
def oneCoinWallet (script : CScript) : StakingWallet where
  keystore := ⟨fun keyID => keyID == List.replicate 20 7, fun _ => none, fun _ => false⟩
  getKey keyID := keyID == List.replicate 20 7
  mapWallet := [⟨newTransaction [⟨⟨1, 0⟩, [], SEQUENCE_FINAL⟩] [⟨10000 * COIN, script⟩], true, true, 0, 1000, false⟩]
  isSpent _ := false
  isLockedCoin _ := false
  hasDelegator _ := false
  fIncludeColdStaking := true
  nStakeSplitThreshold := 3000 * COIN
  scriptDepth := 1

def oneCoin (script : CScript) : WalletCoin :=
  ⟨newTransaction [⟨⟨1, 0⟩, [], SEQUENCE_FINAL⟩] [⟨10000 * COIN, script⟩], 0, Nat.zero_lt_one⟩

/-- The coin is tried and has a kernel. -/
def goodVisit : Visit := ⟨false, false, false, true, 1000⟩

/-- `GetScriptForDestination` of an exchange address. -/
def payToExchangeAddress (keyID : List UInt8) : CScript :=
  [OP_EXCHANGEADDR, OP_DUP, OP_HASH160, 0x14] ++ keyID ++ [OP_EQUALVERIFY, OP_CHECKSIG]

theorem splitStake_complete :
    stakeableCoins mainParams zeroCrypto (oneCoinWallet (payToPubKeyHash (List.replicate 20 7)))
        = [oneCoin (payToPubKeyHash (List.replicate 20 7))] ∧
      ∃ r, createCoinStake (oneCoinWallet (payToPubKeyHash (List.replicate 20 7))) 2000 true
          [(oneCoin (payToPubKeyHash (List.replicate 20 7)), goodVisit)] = .ok (true, r) ∧
        r.txNew.vout.length = 4 ∧
        StakeComplete 0 (oneCoin (payToPubKeyHash (List.replicate 20 7))) r.txNew := by
  refine ⟨by decide +kernel, _, rfl, rfl, ?_⟩
  have hend : ¬ EndsUnpaid (oneCoinWallet (payToPubKeyHash (List.replicate 20 7))) 0 true false
      [(oneCoin (payToPubKeyHash (List.replicate 20 7)), goodVisit)] := by
    rintro ⟨-, ⟨hfound, -⟩ | ⟨before, coin, visit, after, heq, -, hun, -⟩⟩
    · cases hfound
    · cases before with
      | nil =>
        cases heq
        exact absurd hun.script (by decide)
      | cons x before => simp at heq
  obtain ⟨x, hx, -, hstake⟩ := (createCoinStake_complete_iff _ 2000 0 rfl true _).mpr hend _ rfl
  rw [List.mem_singleton] at hx
  rw [hx] at hstake
  exact hstake

/-- A coin of an exchange address of the wallet is stakeable; with a kernel it is reported as found,
and the coinstake has no input. -/
theorem exchangeCoin_unpaid :
    stakeableCoins mainParams zeroCrypto (oneCoinWallet (payToExchangeAddress (List.replicate 20 7)))
        = [oneCoin (payToExchangeAddress (List.replicate 20 7))] ∧
      ∃ r, createCoinStake (oneCoinWallet (payToExchangeAddress (List.replicate 20 7))) 2000 true
          [(oneCoin (payToExchangeAddress (List.replicate 20 7)), goodVisit)] = .ok (true, r) ∧
        r.txNew.vin = [] ∧ r.txNew.vout = [⟨0, []⟩] := by
  refine ⟨by decide +kernel, _, rfl, rfl, rfl⟩

end KrovaCoin
