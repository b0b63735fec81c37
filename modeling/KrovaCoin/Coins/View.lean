import KrovaCoin.Coins.CacheSapling
import KrovaCoin.Lib.Overlay
import KrovaCoin.Consensus.TxVerify
import KrovaCoin.Sapling.IncrementalMerkleTree

/-!
# The view a block is connected to (`coins.h`, `coins.cpp`)

Block validation works on one `CCoinsViewCache` over a base view. `View` is that pair, and its operations are those of
the cache model; only what a call answers and what it leaves in the cache are separated, so that functions that merely
read stay functions of the view (`fetch` is what reading a coin does to the cache).

* `Slots` — what the coins of a view are for an observer who only adds and spends: at every outpoint
  the visible coin, and a coin of the base that a `FRESH` entry covers.  `AddCoin` without
  `possible_overwrite` pushes the visible coin below the new one, `SpendCoin` pops.

Principal results: `spendCoin_slots`, `addCoin_slots`.
-/

namespace KrovaCoin

open Lib

/-- A coin that `AddCoin` records: unspent, spendable and no zerocoin mint. -/
def Coin.storable (c : Coin) : Bool :=
  !c.isSpent && !c.out.scriptPubKey.isUnspendable && !c.out.isZerocoinMint

/-- A `CCoinsViewCache` and the view it was created over. -/
structure View where
  base : BaseView SaplingMerkleTree
  top : CCoinsViewCache SaplingMerkleTree

namespace View

/-! ## Operations on coins -/

def accessCoin (v : View) (o : COutPoint) : Coin := (KrovaCoin.accessCoin v.base [v.top] o).1

def haveCoin (v : View) (o : COutPoint) : Bool := (KrovaCoin.haveCoin v.base [v.top] o).1

/-- What `FetchCoin` leaves in the cache. -/
def fetch (v : View) (o : COutPoint) : View :=
  { v with top := (fetchCoin (getCoin v.base []) v.top [] o).2.1 }

/-- `SpendCoin`: the coin moved out, and the view. -/
def spendCoin (v : View) (o : COutPoint) : Option Coin × View :=
  match fetchCoin (getCoin v.base []) v.top [] o with
  | (none, c, _) => (none, { v with top := c })
  | (some e, c, _) =>
    (some e.coin, { v with top := c.setCoin o (if e.fresh then none else some ⟨coinEmpty, true, e.fresh⟩) })

def addCoin (v : View) (o : COutPoint) (coin : Coin) (possible_overwrite : Bool) : Except Failure View :=
  match v.top.addCoin o coin possible_overwrite with
  | .ok top => .ok { v with top := top }
  | .error .assertion => .error .assertion
  | .error e => .error (.exception e.what)

theorem addCoin_ne_assertion {v : View} {o : COutPoint} {coin : Coin} {possible_overwrite : Bool}
    (hcoin : coin.isSpent = false) : v.addCoin o coin possible_overwrite ≠ .error .assertion := by
  unfold addCoin CCoinsViewCache.addCoin
  simp only [hcoin, Bool.false_eq_true, if_false]
  split
  · simp
  · rename_i herr
    split at herr
    · cases herr
    · split at herr
      · cases herr
      · split at herr <;> cases herr
  · simp

/-- One output in the loop of `AddCoins`. -/
def addOutput (fCoinbase fCoinstake : Bool) (nHeight : Nat) (check : Bool)
    (invalidOut : COutPoint → Bool) (v : View) (out : COutPoint × CTxOut) : Except Failure View :=
  if invalidOut out.1 then .ok (v.spendCoin out.1).2
  else
    (if check then v.fetch out.1 else v).addCoin out.1 ⟨fCoinbase, fCoinstake, out.2, nHeight⟩
      (check && v.haveCoin out.1)

end View

def CTransaction.outputs (tx : CTransaction) : List (COutPoint × CTxOut) :=
  tx.vout.zipIdx.map fun (out, i) => (⟨tx.hash, UInt32.ofNat i⟩, out)

namespace View

/-- `AddCoins`; `invalidOut` is `fSkipInvalid && invalid_out::ContainsOutPoint(out)`. -/
def addCoins (v : View) (tx : CTransaction) (nHeight : Nat) (check : Bool)
    (invalidOut : COutPoint → Bool) : Except Failure View :=
  tx.outputs.foldlM (addOutput tx.isCoinBase tx.isCoinStake nHeight check invalidOut) v

def haveInputs (v : View) (tx : CTransaction) : Bool :=
  tx.isCoinBase || tx.hasZerocoinSpendInputs || tx.vin.all fun txin => v.haveCoin txin.prevout

/-- The value `GetValueIn` counts for an input. -/
def inputValue (v : View) (txin : CTxIn) : Int :=
  if txin.isZerocoinSpend || txin.isZerocoinPublicSpend then txin.nSequence.toNat * COIN
  else (v.accessCoin txin.prevout).out.nValue

def getValueIn (v : View) (tx : CTransaction) : Except String Int :=
  if tx.isCoinBase then .ok 0
  else do
    let nShielded ← tx.getShieldedValueIn
    return toInt64 (tx.vin.foldl (fun nResult txin => toInt64 (nResult + v.inputValue txin)) 0 + nShielded)

def getP2SHSigOpCount (v : View) (tx : CTransaction) : Nat :=
  if tx.isCoinBase then 0
  else (tx.vin.map fun txin =>
    let prevout := (v.accessCoin txin.prevout).out
    if prevout.scriptPubKey.isPayToScriptHash then prevout.scriptPubKey.getSigOpCountP2SH txin.scriptSig
    else 0).sum

/-! ## Operations on the Sapling state -/

/-- The view after an operation on a stack of one layer. -/
def withLayers (v : View) : List (CCoinsViewCache SaplingMerkleTree) → View
  | [] => v
  | c :: _ => { v with top := c }

def getBestBlock (v : View) : Uint256 := (KrovaCoin.getBestBlock v.base [v.top]).1

def setBestBlock (v : View) (hashBlock : Uint256) : View := { v with top := v.top.setBestBlock hashBlock }

def getNullifier (v : View) (nf : Uint256) : Bool := (KrovaCoin.getNullifier v.base [v.top] nf).1

def getSaplingAnchorAt (p : PedersenHash) (v : View) (rt : Uint256) : Option SaplingMerkleTree :=
  (KrovaCoin.getSaplingAnchorAt p.treeOps v.base [v.top] rt).1

def getBestAnchor (p : PedersenHash) (v : View) : Uint256 :=
  (KrovaCoin.getBestAnchor p.treeOps v.base [v.top]).1

def setNullifiers (v : View) (tx : CTransaction) (spent : Bool) : View :=
  { v with top := v.top.setNullifiers (tx.shieldedSpends.map SpendDescription.nullifier) spent }

def pushAnchor (p : PedersenHash) (v : View) (tree : SaplingMerkleTree) : View :=
  v.withLayers (KrovaCoin.pushAnchor p.treeOps v.base [v.top] tree)

def popAnchor (p : PedersenHash) (v : View) (newrt : Uint256) : Except Failure View :=
  match KrovaCoin.popAnchor p.treeOps v.base [v.top] newrt with
  | .ok layers => .ok (v.withLayers layers)
  | .error _ => .error .assertion

def haveShieldedRequirements (p : PedersenHash) (v : View) (tx : CTransaction) : Bool :=
  !tx.isShieldedTx || tx.shieldedSpends.all fun spend =>
    !v.getNullifier spend.nullifier && (v.getSaplingAnchorAt p spend.anchor).isSome

/-! ## What an observer sees of the coins -/

/-- The visible coin of an outpoint. -/
def coin (v : View) : COutPoint → Option Coin := vis v.base [v.top]

/-- The coin of the base that a `FRESH` entry covers; with sound flags there is none. -/
def shadow (v : View) (o : COutPoint) : Option Coin :=
  match KMap.get v.top.cacheCoins o with
  | some e => if e.fresh then vis v.base [] o else none
  | none => none

/-- A spent entry that would become `FRESH` covers no coin. -/
def Tidy (v : View) : Prop :=
  ∀ o e, KMap.get v.top.cacheCoins o = some e → e.coin.isSpent = true →
    e.fresh = true ∨ e.dirty = false → vis v.base [] o = none

def slots (v : View) : Slots COutPoint Coin := fun o => (v.coin o, v.shadow o)

theorem vis_top (v : View) (o : COutPoint) :
    v.coin o = match KMap.get v.top.cacheCoins o with
      | some e => e.coin.live
      | none => vis v.base [] o := rfl

theorem slots_setCoin (v : View) (o : COutPoint) (e : Option CCoinsCacheEntry) :
    ({ v with top := v.top.setCoin o e } : View).slots =
      Function.update v.slots o
        (match e with
          | some e => (e.coin.live, if e.fresh then vis v.base [] o else none)
          | none => (vis v.base [] o, none)) := by
  funext o'
  by_cases ho : o' = o
  · subst ho
    cases e <;> simp [slots, vis_top, shadow, CCoinsViewCache.setCoin]
  · rw [Function.update_of_ne ho]
    simp [slots, vis_top, shadow, CCoinsViewCache.setCoin, KMap.get_set_ne _ _ ho]

variable {v : View} {o : COutPoint}

theorem Tidy.setCoin (h : v.Tidy) (o : COutPoint) {e : Option CCoinsCacheEntry}
    (he : ∀ e', e = some e' → e'.coin.isSpent = true → e'.fresh = true ∨ e'.dirty = false → vis v.base [] o = none) :
    ({ v with top := v.top.setCoin o e } : View).Tidy := by
  intro o' e' hget hspent hflags
  simp only [CCoinsViewCache.setCoin, KMap.get_set] at hget
  split at hget
  · rename_i ho
    subst ho
    exact he e' hget hspent hflags
  · exact h o' e' hget hspent hflags

theorem haveCoin_eq (v : View) (o : COutPoint) : v.haveCoin o = (v.coin o).isSome :=
  KrovaCoin.haveCoin_eq v.base [v.top] o

theorem accessCoin_live (v : View) (o : COutPoint) : (v.accessCoin o).live = v.coin o :=
  KrovaCoin.accessCoin_live v.base [v.top] o

variable {c : Coin}

theorem accessCoin_of_coin (h : v.coin o = some c) : v.accessCoin o = c := by
  have hlive := v.accessCoin_live o
  rw [h] at hlive
  unfold Coin.live at hlive
  split at hlive
  · cases hlive
  · exact Option.some.inj hlive

theorem coin_isSpent (h : v.coin o = some c) : c.isSpent = false := by
  have hlive := v.accessCoin_live o
  rw [accessCoin_of_coin h, h] at hlive
  unfold Coin.live at hlive
  split at hlive
  · cases hlive
  · rename_i hs
    simpa using hs

theorem fetchCoin_cases (v : View) (o : COutPoint) : (∃ e, KMap.get v.top.cacheCoins o = some e ∧
      fetchCoin (getCoin v.base []) v.top [] o = (some e, v.top, [])) ∨
    (KMap.get v.top.cacheCoins o = none ∧ vis v.base [] o = none ∧
      fetchCoin (getCoin v.base []) v.top [] o = (none, v.top, [])) ∨
    (∃ tmp, KMap.get v.top.cacheCoins o = none ∧ vis v.base [] o = tmp.live ∧ fetchCoin (getCoin v.base []) v.top [] o =
        (some ⟨tmp, false, tmp.isSpent⟩, v.top.setCoin o (some ⟨tmp, false, tmp.isSpent⟩), [])) := by
  unfold fetchCoin getCoin vis
  cases hget : KMap.get v.top.cacheCoins o with
  | some e => exact .inl ⟨e, rfl, rfl⟩
  | none =>
    cases hbase : KMap.get v.base.coins o with
    | none => exact .inr (.inl ⟨rfl, rfl, rfl⟩)
    | some tmp => exact .inr (.inr ⟨tmp, rfl, rfl, rfl⟩)

theorem slots_uncached (h : KMap.get v.top.cacheCoins o = none) : v.slots o = (vis v.base [] o, none) := by
  simp [slots, vis_top, shadow, h]

theorem slots_cached {e : CCoinsCacheEntry} (h : KMap.get v.top.cacheCoins o = some e) :
    v.slots o = (e.coin.live, if e.fresh then vis v.base [] o else none) := by
  simp [slots, vis_top, shadow, h]

@[simp] theorem coin_fetch (v : View) (o : COutPoint) : (v.fetch o).coin = v.coin := by
  unfold fetch
  rcases v.fetchCoin_cases o with ⟨e, -, hf⟩ | ⟨-, -, hf⟩ | ⟨tmp, hget, hbase, hf⟩
  · rw [hf]
  · rw [hf]
  · rw [hf]
    funext o'
    rw [vis_top, vis_top]
    dsimp only [CCoinsViewCache.setCoin]
    by_cases heq : o' = o
    · subst heq
      rw [KMap.get_set_self, hget, hbase]
    · rw [KMap.get_set_ne _ _ heq]

theorem coin_foldl_fetch (v : View) (os : List COutPoint) : (os.foldl View.fetch v).coin = v.coin :=
  List.foldlRecOn os View.fetch (motive := fun w => w.coin = v.coin) rfl fun w hw o _ => (coin_fetch w o).trans hw

theorem fetch_slots (hv : v.Tidy) (o : COutPoint) : (v.fetch o).slots = v.slots ∧ (v.fetch o).Tidy := by
  unfold fetch
  rcases v.fetchCoin_cases o with ⟨e, -, hf⟩ | ⟨-, -, hf⟩ | ⟨tmp, hget, hbase, hf⟩
  · rw [hf]
    exact ⟨rfl, hv⟩
  · rw [hf]
    exact ⟨rfl, hv⟩
  · rw [hf]
    have hcover : (if tmp.isSpent then vis v.base [] o else none) = none := by
      split
      · rename_i hs
        rw [hbase, Coin.live_of_isSpent hs]
      · rfl
    refine ⟨?_, hv.setCoin o fun e' he' hspent _ => ?_⟩
    · rw [slots_setCoin, Function.update_eq_iff]
      refine ⟨?_, fun _ _ => rfl⟩
      rw [slots_uncached hget]
      exact Prod.ext hbase.symm hcover
    · cases he'
      rw [hbase, Coin.live_of_isSpent hspent]

/-- **`SpendCoin` takes the visible coin away.** -/
theorem spendCoin_slots (hv : v.Tidy) (o : COutPoint) :
    (v.spendCoin o).1.bind Coin.live = v.coin o ∧ (v.spendCoin o).2.slots = v.slots.pop o ∧ (v.spendCoin o).2.Tidy := by
  unfold spendCoin Slots.pop
  rcases v.fetchCoin_cases o with ⟨e, hget, hf⟩ | ⟨hget, hbase, hf⟩ | ⟨tmp, hget, hbase, hf⟩
  · rw [hf]
    refine ⟨by simp [vis_top, hget], ?_, hv.setCoin o fun e' he' hspent hflags => ?_⟩
    · rw [slots_setCoin, slots_cached hget]
      cases e.fresh <;> rfl
    · split at he'
      · cases he'
      · rename_i hfresh
        cases he'
        simp [hfresh] at hflags
  · rw [hf]
    refine ⟨by simp [vis_top, hget, hbase], ?_, hv⟩
    symm
    rw [Function.update_eq_iff]
    exact ⟨by rw [slots_uncached hget, hbase], fun _ _ => rfl⟩
  · have hfetch : v.fetch o =
        { v with top := v.top.setCoin o (some ⟨tmp, false, tmp.isSpent⟩) } := by
      unfold fetch
      rw [hf]
    obtain ⟨hslots, htidy⟩ := fetch_slots hv o
    rw [hf]
    refine ⟨by simp [vis_top, hget, hbase], ?_, ?_⟩
    · -- the entry fetched from the base is `FRESH` only if it is spent
      have hset := slots_setCoin (v.fetch o) o
        (if tmp.isSpent then none else some ⟨coinEmpty, true, tmp.isSpent⟩)
      rw [hslots, hfetch] at hset
      refine hset.trans ?_
      rw [slots_uncached hget, hbase]
      cases hs : tmp.isSpent with
      | true => simp [Coin.live_of_isSpent hs]
      | false => simp
    · rw [hfetch] at htidy
      refine htidy.setCoin o fun e' he' hspent hflags => ?_
      split at he'
      · cases he'
      · rename_i hfresh
        cases he'
        simp only [Bool.not_eq_true] at hfresh
        simp [hfresh] at hflags

/-- **`AddCoin` without `possible_overwrite` puts the coin over the visible one.** It throws where the visible coin is
    one of the cache, so it covers a coin of the base or none. -/
theorem addCoin_slots {v' : View} (hv : v.Tidy) (h : v.addCoin o c false = .ok v') :
    v'.Tidy ∧ (if c.storable then v'.slots = v.slots.push o c ∧ (v.slots o).2 = none else v' = v) := by
  unfold addCoin CCoinsViewCache.addCoin at h
  unfold Coin.storable
  by_cases hspent : c.isSpent = true
  · simp [hspent] at h
  by_cases hu : c.out.scriptPubKey.isUnspendable = true
  · simp [hspent, hu] at h
    subst h
    simp [hu, hv]
  by_cases hz : c.out.isZerocoinMint = true
  · simp [hspent, hu, hz] at h
    subst h
    simp [hz, hv]
  simp only [Bool.not_eq_true] at hspent hu hz
  simp only [hspent, hu, hz, Bool.false_eq_true, if_false, Bool.not_false, Bool.true_and, Bool.and_self, if_true] at h ⊢
  cases hget : KMap.get v.top.cacheCoins o with
  | none =>
    rw [hget] at h
    cases h
    refine ⟨hv.setCoin o fun e' he' hs _ => ?_, ?_, by rw [slots_uncached hget]⟩
    · cases he'
      simp [hspent] at hs
    · rw [slots_setCoin, Slots.push, slots_uncached hget]
      simp [Coin.live_of_not_isSpent hspent]
  | some e =>
    rw [hget] at h
    by_cases he : e.coin.isSpent = true
    · simp only [Option.getD_some, he, Bool.not_true, Bool.false_eq_true, if_false] at h
      cases h
      have hcover : ∀ b, (b = true → e.fresh = true ∨ e.dirty = false) →
          (if b = true then vis v.base [] o else none) = none := by
        intro b hb
        split
        · rename_i hb'
          exact hv o e hget he (hb hb')
        · rfl
      refine ⟨hv.setCoin o fun e' he' hs _ => ?_, ?_, ?_⟩
      · cases he'
        simp [hspent] at hs
      · rw [slots_setCoin, Slots.push, slots_cached hget]
        simp only [Coin.live_of_not_isSpent hspent, Coin.live_of_isSpent he]
        rw [hcover _ (by simp)]
      · rw [slots_cached hget]
        exact hcover _ fun hf => .inl hf
    · simp [he] at h

theorem addCoin_overwrite (hv : v.Tidy) (o : COutPoint) (hc : c.storable = true) :
    ∃ v', v.addCoin o c true = .ok v' ∧ v'.Tidy ∧ v'.slots = v.slots.replace o c := by
  simp only [Coin.storable, Bool.and_eq_true, Bool.not_eq_true'] at hc
  obtain ⟨⟨hspent, hu⟩, hz⟩ := hc
  unfold addCoin CCoinsViewCache.addCoin
  simp only [hspent, hu, hz, Bool.false_eq_true, if_false, Bool.not_true, Bool.false_and, Bool.or_false]
  refine ⟨_, rfl, hv.setCoin o fun e' he' hs _ => ?_, ?_⟩
  · cases he'
    simp [hspent] at hs
  · rw [slots_setCoin, Slots.replace]
    cases hget : KMap.get v.top.cacheCoins o with
    | none => simp [slots_uncached hget, Coin.live_of_not_isSpent hspent]
    | some e => simp [slots_cached hget, Coin.live_of_not_isSpent hspent]

/-! ## Simulation by slots -/

/-- The cache itself holds an unspent coin at the outpoint; `AddCoin` without `possible_overwrite` throws there. -/
def Holds (v : View) (o : COutPoint) : Prop :=
  ∃ e, KMap.get v.top.cacheCoins o = some e ∧ e.coin.isSpent = false

variable {o' : COutPoint}

theorem Holds.setCoin (h : v.Holds o') (hne : o' ≠ o) (e : Option CCoinsCacheEntry) :
    ({ v with top := v.top.setCoin o e } : View).Holds o' := by
  obtain ⟨e', he', hspent⟩ := h
  exact ⟨e', by simpa [CCoinsViewCache.setCoin, KMap.get_set_ne _ _ hne] using he', hspent⟩

theorem Holds.fetch (h : v.Holds o') (o : COutPoint) : (v.fetch o).Holds o' := by
  unfold View.fetch
  rcases v.fetchCoin_cases o with ⟨e, -, hf⟩ | ⟨-, -, hf⟩ | ⟨tmp, hget, -, hf⟩
  · rw [hf]
    exact h
  · rw [hf]
    exact h
  · rw [hf]
    refine h.setCoin (fun heq => ?_) _
    obtain ⟨e', he', -⟩ := h
    rw [heq, hget] at he'
    cases he'

theorem Holds.spendCoin (h : v.Holds o') (hne : o' ≠ o) : (v.spendCoin o).2.Holds o' := by
  have hfetch := h.fetch o
  unfold View.fetch at hfetch
  unfold View.spendCoin
  rcases v.fetchCoin_cases o with ⟨e, -, hf⟩ | ⟨-, -, hf⟩ | ⟨tmp, hget, -, hf⟩
  · rw [hf]
    exact h.setCoin hne _
  · rw [hf]
    exact h
  · rw [hf] at hfetch ⊢
    exact hfetch.setCoin hne _

theorem addCoin_holds {v' : View} (hc : c.storable = true) (h : v.addCoin o c false = .ok v') :
    ¬ v.Holds o ∧ v'.Holds o ∧ ∀ o', o' ≠ o → v.Holds o' → v'.Holds o' := by
  simp only [Coin.storable, Bool.and_eq_true, Bool.not_eq_true'] at hc
  obtain ⟨⟨hspent, hu⟩, hz⟩ := hc
  unfold addCoin CCoinsViewCache.addCoin at h
  simp only [hspent, hu, hz, Bool.false_eq_true, if_false, Bool.not_false, Bool.true_and] at h
  split at h
  · rename_i top htop
    split at htop
    · cases htop
    · rename_i hlive
      cases htop
      cases h
      refine ⟨?_, ⟨_, KMap.get_set_self _ _ _, hspent⟩, fun o' hne hold => hold.setCoin hne _⟩
      rintro ⟨e, he, hs⟩
      simp [he, hs] at hlive
  · cases h
  · cases h

/-- A view behaves like the slots; `own` are outpoints at which its cache holds the coin. -/
structure Sim (v : View) (own : Set COutPoint) (s : Slots COutPoint Coin) : Prop where
  tidy : v.Tidy
  slots : v.slots = s
  own : ∀ o ∈ own, v.Holds o

variable {v v' : View} {own : Set COutPoint} {s : Slots COutPoint Coin} {o : COutPoint}

theorem Tidy.sim (h : v.Tidy) : Sim v ∅ v.slots := ⟨h, rfl, fun _ ho => absurd ho (Set.notMem_empty _)⟩

theorem Sim.coin (h : Sim v own s) (o : COutPoint) : v.coin o = (s o).1 := by
  rw [← h.slots]
  rfl

theorem Sim.fetch (h : Sim v own s) (o : COutPoint) : Sim (v.fetch o) own s :=
  ⟨(fetch_slots h.tidy o).2, (fetch_slots h.tidy o).1.trans h.slots, fun o' ho' => (h.own o' ho').fetch o⟩

theorem Sim.spend (h : Sim v own s) (o : COutPoint) : Sim (v.spendCoin o).2 (own \ {o}) (s.pop o) := by
  obtain ⟨-, hslots, htidy⟩ := spendCoin_slots h.tidy o
  refine ⟨htidy, by rw [hslots, h.slots], fun o' ho' => ?_⟩
  exact (h.own o' ho'.1).spendCoin ho'.2

theorem Sim.add (h : Sim v own s) (hc : c.storable = true) (hadd : v.addCoin o c false = .ok v') :
    o ∉ own ∧ (s o).2 = none ∧ Sim v' (insert o own) (s.push o c) := by
  obtain ⟨htidy, hslots⟩ := addCoin_slots h.tidy hadd
  rw [if_pos hc, h.slots] at hslots
  obtain ⟨hnot, hself, hothers⟩ := addCoin_holds hc hadd
  refine ⟨fun ho => hnot (h.own o ho), hslots.2, htidy, hslots.1, fun o' ho' => ?_⟩
  by_cases hne : o' = o
  · exact hne ▸ hself
  · exact hothers o' hne (h.own o' (ho'.resolve_left hne))

theorem Sim.add_unstorable (h : Sim v own s) (hc : c.storable = false) (hadd : v.addCoin o c false = .ok v') :
    Sim v' own s := by
  have hv := (addCoin_slots h.tidy hadd).2
  rw [hc] at hv
  exact hv ▸ h

/-! ## What else an observer sees -/

/-- The two views differ in the coins of the cache only. -/
structure SameRest (v v' : View) : Prop where
  base : v'.base = v.base
  top : v'.top = { v.top with cacheCoins := v'.top.cacheCoins }

theorem SameRest.refl (v : View) : SameRest v v := ⟨rfl, rfl⟩

theorem SameRest.trans {v1 v2 v3 : View} (h : SameRest v1 v2) (h' : SameRest v2 v3) : SameRest v1 v3 :=
  ⟨h'.base.trans h.base, by rw [h'.top, h.top]⟩

theorem SameRest.fetch (v : View) (o : COutPoint) : SameRest v (v.fetch o) := by
  unfold View.fetch
  rcases v.fetchCoin_cases o with ⟨e, -, hf⟩ | ⟨-, -, hf⟩ | ⟨tmp, -, -, hf⟩ <;> rw [hf] <;>
    exact ⟨rfl, rfl⟩

theorem SameRest.spendCoin (v : View) (o : COutPoint) : SameRest v (v.spendCoin o).2 := by
  unfold View.spendCoin
  rcases v.fetchCoin_cases o with ⟨e, -, hf⟩ | ⟨-, -, hf⟩ | ⟨tmp, -, -, hf⟩ <;> rw [hf] <;>
    exact ⟨rfl, rfl⟩

theorem SameRest.addCoin {overwrite : Bool} (h : v.addCoin o c overwrite = .ok v') : SameRest v v' := by
  unfold View.addCoin at h
  split at h
  · rename_i top htop
    cases h
    exact ⟨rfl, addCoin_rest htop⟩
  · cases h
  · cases h

structure SameCoins (v v' : View) : Prop where
  base : v'.base = v.base
  coins : v'.top.cacheCoins = v.top.cacheCoins

theorem SameCoins.sim (h : SameCoins v v') (hs : Sim v own s) : Sim v' own s := by
  obtain ⟨hbase, hcoins⟩ := h
  refine ⟨?_, ?_, ?_⟩
  · have := hs.tidy
    unfold Tidy at this ⊢
    rwa [hcoins, hbase]
  · rw [← hs.slots]
    funext o
    simp only [View.slots, vis_top, shadow, hcoins, hbase]
  · have := hs.own
    unfold Holds at this ⊢
    rwa [hcoins]

/-- What a view shows of the Sapling state: the spent nullifiers, the trees of the known anchors, and
    the best anchor. -/
@[ext] structure SaplingState where
  nullifier : Uint256 → Bool
  anchor : Uint256 → Option SaplingMerkleTree
  best : Uint256

def sapling (p : PedersenHash) (v : View) : SaplingState :=
  ⟨v.getNullifier, v.getSaplingAnchorAt p, v.getBestAnchor p⟩

theorem getNullifier_eq (v : View) (nf : Uint256) :
    v.getNullifier nf = match KMap.get v.top.cacheSaplingNullifiers nf with
      | some e => e.entered
      | none => (KMap.get v.base.saplingNullifiers nf).isSome := by
  unfold View.getNullifier KrovaCoin.getNullifier
  cases KMap.get v.top.cacheSaplingNullifiers nf with
  | some e => rfl
  | none => rfl

theorem getSaplingAnchorAt_eq (p : PedersenHash) (v : View) (rt : Uint256) :
    v.getSaplingAnchorAt p rt = match KMap.get v.top.cacheSaplingAnchors rt with
      | some e => if e.entered then some e.tree else none
      | none => v.base.getSaplingAnchorAt p.treeOps rt := by
  unfold View.getSaplingAnchorAt KrovaCoin.getSaplingAnchorAt
  cases KMap.get v.top.cacheSaplingAnchors rt with
  | some e => rfl
  | none =>
    unfold KrovaCoin.getSaplingAnchorAt
    cases v.base.getSaplingAnchorAt p.treeOps rt with
    | none => rfl
    | some tree => rfl

theorem getBestAnchor_eq (p : PedersenHash) (v : View) :
    v.getBestAnchor p = if v.top.hashSaplingAnchor = UINT256_ZERO then v.base.getBestAnchor p.treeOps
      else v.top.hashSaplingAnchor := by
  unfold View.getBestAnchor KrovaCoin.getBestAnchor
  split <;> rfl

theorem getBestBlock_eq (v : View) :
    v.getBestBlock = if v.top.hashBlock = UINT256_ZERO then v.base.hashBlock else v.top.hashBlock := by
  unfold View.getBestBlock KrovaCoin.getBestBlock
  split <;> rfl

section Congr

variable (hbase : v'.base = v.base)
include hbase

theorem getNullifier_congr (h : v'.top.cacheSaplingNullifiers = v.top.cacheSaplingNullifiers) :
    v'.getNullifier = v.getNullifier := by
  funext nf
  rw [getNullifier_eq, getNullifier_eq, hbase, h]

theorem getSaplingAnchorAt_congr (p : PedersenHash) (h : v'.top.cacheSaplingAnchors = v.top.cacheSaplingAnchors) :
    v'.getSaplingAnchorAt p = v.getSaplingAnchorAt p := by
  funext rt
  rw [getSaplingAnchorAt_eq, getSaplingAnchorAt_eq, hbase, h]

theorem getBestAnchor_congr (p : PedersenHash) (h : v'.top.hashSaplingAnchor = v.top.hashSaplingAnchor) :
    v'.getBestAnchor p = v.getBestAnchor p := by
  rw [getBestAnchor_eq, getBestAnchor_eq, hbase, h]

end Congr

theorem SameRest.sapling (h : SameRest v v') (p : PedersenHash) : v'.sapling p = v.sapling p :=
  SaplingState.ext (getNullifier_congr h.base (by rw [h.top]))
    (getSaplingAnchorAt_congr h.base p (by rw [h.top])) (getBestAnchor_congr h.base p (by rw [h.top]))

theorem getBestBlock_setBestBlock {hashBlock : Uint256}
    (h : hashBlock = UINT256_ZERO → v.base.hashBlock = UINT256_ZERO) :
    (v.setBestBlock hashBlock).getBestBlock = hashBlock := by
  rw [getBestBlock_eq]
  show (if hashBlock = UINT256_ZERO then v.base.hashBlock else hashBlock) = hashBlock
  split
  · rename_i hz
    rw [h hz, hz]
  · rfl

theorem SameCoins.setBestBlock (v : View) (hashBlock : Uint256) : SameCoins v (v.setBestBlock hashBlock) :=
  ⟨rfl, rfl⟩

theorem sapling_setBestBlock (p : PedersenHash) (v : View) (hashBlock : Uint256) :
    (v.setBestBlock hashBlock).sapling p = v.sapling p := by
  refine SaplingState.ext ?_ ?_ ?_
  · exact @getNullifier_congr v (v.setBestBlock hashBlock) rfl rfl
  · exact @getSaplingAnchorAt_congr v (v.setBestBlock hashBlock) rfl p rfl
  · exact @getBestAnchor_congr v (v.setBestBlock hashBlock) rfl p rfl

theorem SameCoins.setNullifiers (v : View) (tx : CTransaction) (spent : Bool) :
    SameCoins v (v.setNullifiers tx spent) := ⟨rfl, rfl⟩

theorem getNullifier_setNullifiers (v : View) (tx : CTransaction) (spent : Bool) (nf : Uint256) :
    (v.setNullifiers tx spent).getNullifier nf =
      if nf ∈ tx.shieldedSpends.map SpendDescription.nullifier then spent else v.getNullifier nf := by
  rw [getNullifier_eq]
  simp only [View.setNullifiers, CCoinsViewCache.setNullifiers, get_foldl_set]
  by_cases hmem : nf ∈ tx.shieldedSpends.map SpendDescription.nullifier
  · rw [if_pos hmem, if_pos hmem]
  · rw [if_neg hmem, if_neg hmem, getNullifier_eq]

theorem sapling_setNullifiers (p : PedersenHash) (v : View) (tx : CTransaction) (spent : Bool) :
    (v.setNullifiers tx spent).sapling p =
      { v.sapling p with
        nullifier := fun nf =>
          if nf ∈ tx.shieldedSpends.map SpendDescription.nullifier then spent else v.getNullifier nf } :=
  SaplingState.ext (funext fun nf => getNullifier_setNullifiers v tx spent nf)
    (@getSaplingAnchorAt_congr v (v.setNullifiers tx spent) rfl p rfl)
    (@getBestAnchor_congr v (v.setNullifiers tx spent) rfl p rfl)

def asked (p : PedersenHash) (v : View) : View :=
  { v with top := { v.top with hashSaplingAnchor := v.getBestAnchor p } }

theorem getBestAnchor_layers (p : PedersenHash) (v : View) :
    KrovaCoin.getBestAnchor p.treeOps v.base [v.top] = (v.getBestAnchor p, [(v.asked p).top]) := by
  unfold asked
  rw [getBestAnchor_eq]
  unfold KrovaCoin.getBestAnchor
  split
  · rfl
  · rfl

theorem asked_sapling (p : PedersenHash) (v : View) : (v.asked p).sapling p = v.sapling p := by
  refine SaplingState.ext (@getNullifier_congr v (v.asked p) rfl rfl)
    (@getSaplingAnchorAt_congr v (v.asked p) rfl p rfl) ?_
  show (v.asked p).getBestAnchor p = v.getBestAnchor p
  rw [getBestAnchor_eq p (v.asked p)]
  show (if v.getBestAnchor p = UINT256_ZERO then v.base.getBestAnchor p.treeOps else v.getBestAnchor p) = _
  split
  · rename_i hz
    rw [getBestAnchor_eq] at hz ⊢
    split at hz
    · rename_i hnull
      rw [if_pos hnull]
    · contradiction
  · rfl

theorem pushAnchor_eq (p : PedersenHash) (v : View) (tree : SaplingMerkleTree) :
    v.pushAnchor p tree = if v.getBestAnchor p = p.root tree then v.asked p
      else { v with top := { v.top with
        hashSaplingAnchor := p.root tree
        cacheSaplingAnchors := KMap.set v.top.cacheSaplingAnchors (p.root tree) (some ⟨true, tree, true⟩) } } := by
  unfold View.pushAnchor KrovaCoin.pushAnchor
  rw [getBestAnchor_layers]
  show v.withLayers (if v.getBestAnchor p = p.root tree then _ else _) = _
  split
  · rfl
  · rfl

theorem SameCoins.pushAnchor (p : PedersenHash) (v : View) (tree : SaplingMerkleTree) :
    SameCoins v (v.pushAnchor p tree) := by
  rw [pushAnchor_eq]
  split
  · exact ⟨rfl, rfl⟩
  · exact ⟨rfl, rfl⟩

theorem getNullifier_pushAnchor (p : PedersenHash) (v : View) (tree : SaplingMerkleTree) :
    (v.pushAnchor p tree).getNullifier = v.getNullifier := by
  rw [pushAnchor_eq]
  split
  · exact getNullifier_congr rfl rfl
  · exact getNullifier_congr rfl rfl

/-- The Sapling state after `PopAnchor`. -/
def SaplingState.pop (s : SaplingState) (newrt : Uint256) : SaplingState :=
  if s.best = newrt then s else { s with anchor := Function.update s.anchor s.best none, best := newrt }

theorem getSaplingAnchorAt_layers (p : PedersenHash) (v : View) (rt : Uint256) :
    ∃ c, KrovaCoin.getSaplingAnchorAt p.treeOps v.base [v.top] rt = (v.getSaplingAnchorAt p rt, [c]) ∧
      c = { v.top with cacheSaplingAnchors := c.cacheSaplingAnchors } ∧
      ∀ rt', rt' ≠ rt → KMap.get c.cacheSaplingAnchors rt' = KMap.get v.top.cacheSaplingAnchors rt' := by
  unfold View.getSaplingAnchorAt KrovaCoin.getSaplingAnchorAt
  cases KMap.get v.top.cacheSaplingAnchors rt with
  | some e => exact ⟨v.top, rfl, rfl, fun _ _ => rfl⟩
  | none =>
    unfold KrovaCoin.getSaplingAnchorAt
    cases v.base.getSaplingAnchorAt p.treeOps rt with
    | none => exact ⟨v.top, rfl, rfl, fun _ _ => rfl⟩
    | some tree => exact ⟨_, rfl, rfl, fun rt' hne => KMap.get_set_ne _ _ hne⟩

theorem popAnchor_ok {p : PedersenHash} {newrt : Uint256}
    (hknown : v.getBestAnchor p ≠ newrt → (v.getSaplingAnchorAt p (v.getBestAnchor p)).isSome = true) :
    ∃ v', v.popAnchor p newrt = .ok v' ∧ SameCoins v v' ∧
      (newrt ≠ UINT256_ZERO → v'.sapling p = (v.sapling p).pop newrt) := by
  unfold View.popAnchor KrovaCoin.popAnchor
  rw [getBestAnchor_layers]
  by_cases hsame : v.getBestAnchor p = newrt
  · simp only [if_pos hsame]
    refine ⟨v.asked p, rfl, ⟨rfl, rfl⟩, fun _ => ?_⟩
    rw [asked_sapling]
    exact (if_pos hsame).symm
  · simp only [if_neg hsame]
    obtain ⟨tree, htree⟩ := Option.isSome_iff_exists.mp (hknown hsame)
    obtain ⟨c, hread, hc, hanchors⟩ := getSaplingAnchorAt_layers p (v.asked p) (v.getBestAnchor p)
    rw [@getSaplingAnchorAt_congr v (v.asked p) rfl p rfl, htree] at hread
    have hbase : (v.asked p).base = v.base := rfl
    rw [hbase] at hread
    simp only [hread]
    refine ⟨_, rfl, ⟨rfl, by rw [withLayers, hc]; rfl⟩, fun hnull => ?_⟩
    rw [SaplingState.pop, if_neg (show ¬ (v.sapling p).best = newrt from hsame)]
    refine SaplingState.ext (getNullifier_congr rfl (by rw [withLayers, hc]; rfl)) (funext fun rt => ?_) ?_
    · show View.getSaplingAnchorAt p _ rt =
        Function.update (v.getSaplingAnchorAt p) (v.getBestAnchor p) none rt
      rw [getSaplingAnchorAt_eq]
      simp only [withLayers, KMap.get_set]
      by_cases hrt : rt = v.getBestAnchor p
      · simp [hrt]
      · rw [if_neg hrt, Function.update_of_ne hrt, hanchors rt hrt, getSaplingAnchorAt_eq]
        rfl
    · exact (getBestAnchor_eq p _).trans (if_neg hnull)

end View

end KrovaCoin
