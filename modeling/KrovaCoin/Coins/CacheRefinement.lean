import KrovaCoin.Coins.Cache

/-!
# The coin cache refines plain maps

The visible coins of a layer are a plain map from outpoints to unspent coins. Every layer keeps one invariant with
respect to the map visible below it (`EntryOk`): a FRESH entry stands over nothing, a clean entry repeats what is below.

* `CoinOp`, `CacheStack.step`, `CacheStack.run` — the operations on the stack of caches.
* `PlainStack.step`, `PlainStack.run` — the same operations on plain maps.

Principal result: `cache_refines_plain_maps`.
-/

namespace KrovaCoin

open Lib

variable {T : Type} {base : BaseView T} {c : CCoinsViewCache T} {below : List (CCoinsViewCache T)} {o : COutPoint}

abbrev PlainMap := COutPoint → Option Coin

/-- The unspent coins a stack shows. -/
def vis (base : BaseView T) : List (CCoinsViewCache T) → PlainMap
  | [], o => (KMap.get base.coins o).bind Coin.live
  | c :: below, o =>
    match KMap.get c.cacheCoins o with
    | some e => e.coin.live
    | none => vis base below o

/-- The visible maps of all layers and of the base, topmost first. -/
def views (base : BaseView T) : List (CCoinsViewCache T) → List PlainMap
  | [] => [vis base []]
  | c :: below => vis base (c :: below) :: views base below

/-- An entry over what is visible below it. -/
structure EntryOk (parent : Option Coin) (e : CCoinsCacheEntry) : Prop where
  fresh : e.fresh = true → parent = none
  clean : e.dirty = false → e.coin.live = parent

instance (parent : Option Coin) (e : CCoinsCacheEntry) : Decidable (EntryOk parent e) :=
  decidable_of_iff ((e.fresh = true → parent = none) ∧ (e.dirty = false → e.coin.live = parent))
    ⟨fun h => ⟨h.1, h.2⟩, fun h => ⟨h.fresh, h.clean⟩⟩

/-- Every entry of every layer is in order. -/
def WF (base : BaseView T) : List (CCoinsViewCache T) → Prop
  | [] => True
  | c :: below =>
    (∀ o e, KMap.get c.cacheCoins o = some e → EntryOk (vis base below o) e) ∧ WF base below

theorem views_eq_vis_cons (base : BaseView T) : ∀ layers : List (CCoinsViewCache T),
    ∃ rest, views base layers = vis base layers :: rest
  | [] => ⟨[], rfl⟩
  | _ :: below => ⟨views base below, rfl⟩

variable {base' : BaseView T}

theorem vis_of_views {layers layers' : List (CCoinsViewCache T)} (h : views base' layers' = views base layers) :
    vis base' layers' = vis base layers := by
  obtain ⟨r, hr⟩ := views_eq_vis_cons base layers
  obtain ⟨r', hr'⟩ := views_eq_vis_cons base' layers'
  rw [hr, hr'] at h
  exact (List.cons.inj h).1

theorem vis_of_get {e : CCoinsCacheEntry} (h : KMap.get c.cacheCoins o = some e) :
    vis base (c :: below) o = e.coin.live := by
  simp [vis, h]

theorem vis_of_get_none (h : KMap.get c.cacheCoins o = none) : vis base (c :: below) o = vis base below o := by
  simp [vis, h]

variable {below' : List (CCoinsViewCache T)}

theorem vis_cons_congr (c : CCoinsViewCache T) (h : vis base' below' = vis base below) :
    vis base' (c :: below') = vis base (c :: below) := by
  funext o
  simp [vis, h]

theorem vis_setCoin (c : CCoinsViewCache T) (below : List (CCoinsViewCache T)) (o : COutPoint)
    (e : Option CCoinsCacheEntry) : vis base (c.setCoin o e :: below) = Function.update (vis base (c :: below)) o
        (match e with
          | some e => e.coin.live
          | none => vis base below o) := by
  funext o'
  by_cases h : o' = o
  · subst h
    cases e <;> simp [vis, CCoinsViewCache.setCoin]
  · simp [vis, CCoinsViewCache.setCoin, KMap.get_set_ne _ _ h, h]

theorem WF.setCoin {e : Option CCoinsCacheEntry} (h : WF base (c :: below))
    (he : ∀ e', e = some e' → EntryOk (vis base below o) e') : WF base (c.setCoin o e :: below) := by
  refine ⟨fun o' e' hget => ?_, h.2⟩
  simp only [CCoinsViewCache.setCoin, KMap.get_set] at hget
  split at hget
  · rename_i heq
    subst heq
    exact he e' hget
  · exact h.1 o' e' hget

theorem WF.cons_congr (h : WF base (c :: below)) (hvis : vis base' below' = vis base below) (hbelow : WF base' below') :
    WF base' (c :: below') :=
  ⟨fun o e hget => hvis ▸ h.1 o e hget, hbelow⟩

/-! ## Reading -/

/-- A read leaves every visible map as it was and keeps the invariant. -/
structure ReadOk (base : BaseView T) (layers layers' : List (CCoinsViewCache T)) : Prop where
  views : views base layers' = views base layers
  wf : WF base layers → WF base layers'

theorem ReadOk.refl (base : BaseView T) (layers : List (CCoinsViewCache T)) : ReadOk base layers layers := ⟨rfl, id⟩

theorem ReadOk.cons (c : CCoinsViewCache T) (h : ReadOk base below below') :
    ReadOk base (c :: below) (c :: below') := by
  refine ⟨?_, fun hwf => hwf.cons_congr (vis_of_views h.views) (h.wf hwf.2)⟩
  show vis base (c :: below') :: KrovaCoin.views base below' = _
  rw [vis_cons_congr c (vis_of_views h.views), h.views]
  rfl

theorem fetchCoin_spec (hlive : (getCoin base below o).1.bind Coin.live = vis base below o)
    (hread : ReadOk base below (getCoin base below o).2) :
    ∃ r c' below', fetchCoin (getCoin base below) c below o = (r, c', below') ∧
      (r.map CCoinsCacheEntry.coin).bind Coin.live = vis base (c :: below) o ∧
      ReadOk base (c :: below) (c' :: below') ∧ KMap.get c'.cacheCoins o = r := by
  unfold fetchCoin
  cases hget : KMap.get c.cacheCoins o with
  | some e =>
    refine ⟨some e, c, below, rfl, ?_, .refl _ _, hget⟩
    rw [vis_of_get hget]
    rfl
  | none =>
    have hv : vis base (c :: below) o = vis base below o := vis_of_get_none hget
    generalize getCoin base below o = g at hlive hread ⊢
    obtain ⟨_ | tmp, below'⟩ := g
    · exact ⟨none, c, below', rfl, by rw [hv, ← hlive]; rfl, hread.cons c, hget⟩
    · have htmp : tmp.live = vis base below o := hlive
      have hnew : EntryOk (vis base below o) ⟨tmp, false, tmp.isSpent⟩ :=
        ⟨fun h => htmp ▸ Coin.live_of_isSpent h, fun _ => htmp⟩
      refine ⟨_, _, below', rfl, by rw [hv, ← htmp]; rfl, ⟨?_, fun hwf => ?_⟩, ?_⟩
      · show vis base (c.setCoin o _ :: below') :: views base below' = _
        rw [vis_setCoin, vis_cons_congr c (vis_of_views hread.views), hread.views]
        show Function.update _ o tmp.live :: _ = vis base (c :: below) :: _
        rw [htmp, ← hv, Function.update_eq_self]
      · have hb := hread.cons c
        refine (hb.wf hwf).setCoin fun e' he' => ?_
        cases he'
        rw [vis_of_views hread.views]
        exact hnew
      · simp [CCoinsViewCache.setCoin]

theorem getCoin_spec (base : BaseView T) : ∀ (layers : List (CCoinsViewCache T)) (o : COutPoint),
    (getCoin base layers o).1.bind Coin.live = vis base layers o ∧ ReadOk base layers (getCoin base layers o).2
  | [], o => ⟨rfl, .refl _ _⟩
  | c :: below, o => by
    obtain ⟨hlive, hread⟩ := getCoin_spec base below o
    obtain ⟨r, c', below', hf, hr, hok, -⟩ := fetchCoin_spec (c := c) hlive hread
    simp only [getCoin, hf]
    exact ⟨hr, hok⟩

theorem haveCoin_eq (base : BaseView T) (layers : List (CCoinsViewCache T)) (o : COutPoint) :
    (haveCoin base layers o).1 = (vis base layers o).isSome := by
  rw [← (getCoin_spec base layers o).1]
  show ((getCoin base layers o).1.any fun coin => !coin.isSpent) = _
  cases (getCoin base layers o).1 with
  | none => rfl
  | some coin =>
    cases h : coin.isSpent with
    | true => simp [h, Coin.live]
    | false => simp [h, Coin.live]

theorem accessCoin_live (base : BaseView T) (layers : List (CCoinsViewCache T)) (o : COutPoint) :
    (accessCoin base layers o).1.live = vis base layers o := by
  rw [← (getCoin_spec base layers o).1]
  show ((getCoin base layers o).1.getD coinEmpty).live = _
  cases (getCoin base layers o).1 with
  | none => rfl
  | some coin => rfl

/-! ## Writing to the topmost layer -/

/-- `AddCoin` on a plain map: unspendable outputs and zerocoin mints are not recorded. -/
def PlainMap.add (m : PlainMap) (o : COutPoint) (coin : Coin) : PlainMap :=
  if coin.out.scriptPubKey.isUnspendable || coin.out.isZerocoinMint then m
  else Function.update m o (some coin)

/-- `SpendCoin` on a plain map. -/
def PlainMap.spend (m : PlainMap) (o : COutPoint) : PlainMap := Function.update m o none

theorem addCoin_spec {coin : Coin} {possible_overwrite : Bool} (hcoin : coin.isSpent = false)
    (hwf : WF base (c :: below)) (hpre : possible_overwrite = false → vis base (c :: below) o = none) :
    ∃ c', c.addCoin o coin possible_overwrite = .ok c' ∧ WF base (c' :: below) ∧
      vis base (c' :: below) = PlainMap.add (vis base (c :: below)) o coin := by
  unfold CCoinsViewCache.addCoin PlainMap.add
  rw [if_neg (by simp [hcoin])]
  by_cases hu : coin.out.scriptPubKey.isUnspendable = true
  · rw [if_pos hu]
    exact ⟨c, rfl, hwf, by simp [hu]⟩
  by_cases hz : coin.out.isZerocoinMint = true
  · rw [if_neg hu, if_pos hz]
    exact ⟨c, rfl, hwf, by simp [hz]⟩
  rw [if_neg hu, if_neg hz]
  have hold : possible_overwrite = false →
      ((KMap.get c.cacheCoins o).getD ⟨coinEmpty, false, false⟩).coin.isSpent = true := by
    intro hpo
    have hnone := hpre hpo
    cases hget : KMap.get c.cacheCoins o with
    | none => rfl
    | some e =>
      rw [vis_of_get hget] at hnone
      exact Coin.live_eq_none_iff.mp hnone
  have hguard : ¬ ((!possible_overwrite && !((KMap.get c.cacheCoins o).getD
      ⟨coinEmpty, false, false⟩).coin.isSpent) = true) := by
    cases possible_overwrite with
    | true => simp
    | false => simp [hold rfl]
  rw [if_neg hguard]
  refine ⟨_, rfl, hwf.setCoin fun e' he' => ?_, ?_⟩
  · cases he'
    refine ⟨fun hfresh => ?_, fun hdirty => by cases hdirty⟩
    -- FRESH was set before, or is set now over an entry that is not DIRTY
    cases hget : KMap.get c.cacheCoins o with
    | none =>
      rw [hget] at hfresh
      cases possible_overwrite with
      | true => simp at hfresh
      | false => rw [← vis_of_get_none (c := c) hget]; exact hpre rfl
    | some e =>
      rw [hget] at hfresh
      have hok := hwf.1 o e hget
      simp only [Option.getD_some, Bool.or_eq_true, Bool.and_eq_true, Bool.not_eq_true'] at hfresh
      rcases hfresh with hf | ⟨hpo, hd⟩
      · exact hok.fresh hf
      · rw [← hok.clean hd, ← vis_of_get hget]
        exact hpre hpo
  · rw [vis_setCoin]
    simp only [hu, hz, Coin.live_of_not_isSpent hcoin]
    rfl

theorem spendCoin_spec (hwf : WF base (c :: below)) : ∃ r c' below', spendCoin base c below o = (r, c' :: below') ∧
      r.bind Coin.live = vis base (c :: below) o ∧ WF base (c' :: below') ∧
      views base below' = views base below ∧
      vis base (c' :: below') = PlainMap.spend (vis base (c :: below)) o := by
  obtain ⟨hlive, hread⟩ := getCoin_spec base below o
  obtain ⟨r, c', below', hf, hr, hok, hget⟩ := fetchCoin_spec (c := c) hlive hread
  have hviews : vis base (c' :: below') :: views base below' =
      vis base (c :: below) :: views base below := hok.views
  obtain ⟨hvis, hbelow⟩ := List.cons.inj hviews
  have hwf' := hok.wf hwf
  unfold spendCoin
  rw [hf]
  cases r with
  | none =>
    refine ⟨none, c', below', rfl, hr, hwf', hbelow, ?_⟩
    rw [hvis]
    unfold PlainMap.spend
    rw [Function.eq_update_iff]
    exact ⟨hr.symm, fun _ _ => rfl⟩
  | some e =>
    have hentry := hwf'.1 o e hget
    refine ⟨some e.coin, _, below', rfl, hr, hwf'.setCoin fun e' he' => ?_, hbelow, ?_⟩
    · split at he'
      · cases he'
      · cases he'
        exact ⟨hentry.fresh, fun hd => by cases hd⟩
    · rw [vis_setCoin, hvis]
      congr 1
      split
      · rename_i e' he'
        split at he'
        · cases he'
        · cases he'
          rfl
      · rename_i he'
        split at he'
        · rename_i hfresh
          exact hentry.fresh hfresh
        · cases he'

theorem uncache_spec (c : CCoinsViewCache T) (below : List (CCoinsViewCache T)) (o : COutPoint)
    (hwf : WF base (c :: below)) :
    WF base (c.uncache o :: below) ∧ vis base (c.uncache o :: below) = vis base (c :: below) := by
  unfold CCoinsViewCache.uncache
  split
  · rename_i e hget
    split
    · rename_i hflags
      simp only [Bool.and_eq_true, Bool.not_eq_true'] at hflags
      refine ⟨hwf.setCoin (fun e' he' => by cases he'), ?_⟩
      have hsame : vis base below o = vis base (c :: below) o := by
        rw [vis_of_get hget, (hwf.1 o e hget).clean hflags.1]
      rw [vis_setCoin, hsame]
      exact Function.update_eq_self o _
    · exact ⟨hwf, rfl⟩
  · exact ⟨hwf, rfl⟩

/-! ## Flushing -/

/-- What an optional entry shows over `parent`. -/
def shown (parent : Option Coin) : Option CCoinsCacheEntry → Option Coin
  | some e => e.coin.live
  | none => parent

/-- **One merge of the eight flag states**: with both entries in order the merge does not throw, the
    parent then shows what the child showed, and its entry is in order. -/
theorem mergeCoin_spec {grand : Option Coin} {child : CCoinsCacheEntry} {us : Option CCoinsCacheEntry}
    (hus : ∀ e, us = some e → EntryOk grand e) (hchild : EntryOk (shown grand us) child) :
    ∃ w, mergeCoin o child us = .ok w ∧ (∀ e, w = some e → EntryOk grand e) ∧ shown grand w = child.coin.live := by
  unfold mergeCoin
  cases hd : child.dirty with
  | false => exact ⟨us, rfl, hus, (hchild.clean hd).symm⟩
  | true =>
    cases us with
    | none =>
      by_cases hskip : (child.fresh && child.coin.isSpent) = true
      · simp only [Bool.and_eq_true] at hskip
        refine ⟨none, by simp [hskip], (fun e he => by cases he), ?_⟩
        rw [Coin.live_of_isSpent hskip.2]
        exact hchild.fresh hskip.1
      · refine ⟨some ⟨child.coin, true, child.fresh⟩, ?_, fun e he => ?_, rfl⟩
        · simp only [Bool.not_true, Bool.false_eq_true, if_false, if_neg hskip]
        · cases he
          exact ⟨hchild.fresh, fun h => by cases h⟩
    | some us =>
      have hok := hus us rfl
      have hnot : ¬ (child.fresh && !us.coin.isSpent) = true := by
        intro h
        simp only [Bool.and_eq_true, Bool.not_eq_true'] at h
        have := hchild.fresh h.1
        rw [shown, Coin.live_of_not_isSpent h.2] at this
        cases this
      by_cases hdel : (us.fresh && child.coin.isSpent) = true
      · refine ⟨none, ?_, (fun e he => by cases he), ?_⟩
        · simp only [Bool.not_true, Bool.false_eq_true, if_false, if_neg hnot, if_pos hdel]
        · simp only [Bool.and_eq_true] at hdel
          rw [Coin.live_of_isSpent hdel.2]
          exact hok.fresh hdel.1
      · refine ⟨some ⟨child.coin, true, us.fresh⟩, ?_, fun e he => ?_, rfl⟩
        · simp only [Bool.not_true, Bool.false_eq_true, if_false, if_neg hnot, if_neg hdel]
        · cases he
          exact ⟨hok.fresh, fun h => by cases h⟩

theorem mergeAnchor_ok (rt : Uint256) (child : CAnchorsSaplingCacheEntry T)
    (p : Option (CAnchorsSaplingCacheEntry T)) : ∃ w, mergeAnchor rt child p = .ok w := by
  unfold mergeAnchor
  split
  · exact ⟨_, rfl⟩
  · split
    · exact ⟨_, rfl⟩
    · split
      · exact ⟨_, rfl⟩
      · exact ⟨_, rfl⟩

theorem mergeNullifier_ok (nf : Uint256) (child : CNullifiersCacheEntry)
    (p : Option CNullifiersCacheEntry) : ∃ w, mergeNullifier nf child p = .ok w := by
  unfold mergeNullifier
  split
  · exact ⟨_, rfl⟩
  · split
    · exact ⟨_, rfl⟩
    · split
      · exact ⟨_, rfl⟩
      · exact ⟨_, rfl⟩

variable {p : CCoinsViewCache T}

theorem batchWrite_ok {child : CCoinsViewCache T} {coins : KMap COutPoint CCoinsCacheEntry}
    (h : KMap.merge mergeCoin child.cacheCoins p.cacheCoins = .ok coins) : ∃ anchors nullifiers,
      KMap.merge mergeAnchor child.cacheSaplingAnchors p.cacheSaplingAnchors = .ok anchors ∧
      KMap.merge mergeNullifier child.cacheSaplingNullifiers p.cacheSaplingNullifiers = .ok nullifiers ∧
      p.batchWrite child = .ok ⟨child.hashBlock, coins, child.hashSaplingAnchor, anchors, nullifiers⟩ := by
  obtain ⟨anchors, ha⟩ := KMap.merge_ok fun rt e _ => mergeAnchor_ok rt e _
  obtain ⟨nullifiers, hn⟩ := KMap.merge_ok fun nf e _ => mergeNullifier_ok nf e _
  refine ⟨anchors, nullifiers, ha, hn, ?_⟩
  unfold CCoinsViewCache.batchWrite
  rw [h, ha, hn]
  rfl

theorem batchWrite_spec (hwf : WF base (c :: p :: below)) : ∃ p', p.batchWrite c = .ok p' ∧ WF base (p' :: below) ∧
      vis base (p' :: below) = vis base (c :: p :: below) := by
  have hmerge := fun o e (hget : KMap.get c.cacheCoins o = some e) =>
    mergeCoin_spec (o := o) (hwf.2.1 o) (hwf.1 o e hget)
  obtain ⟨coins, hcoins⟩ := KMap.merge_ok fun o e hget =>
    let ⟨w, hw, _⟩ := hmerge o e hget
    ⟨w, hw⟩
  obtain ⟨anchors, nullifiers, -, -, hp⟩ := batchWrite_ok hcoins
  have hkey : ∀ o, (∀ e, KMap.get coins o = some e → EntryOk (vis base below o) e) ∧
      shown (vis base below o) (KMap.get coins o) = vis base (c :: p :: below) o := by
    intro o
    cases hget : KMap.get c.cacheCoins o with
    | none =>
      rw [KMap.merge_none hcoins hget, vis_of_get_none hget]
      exact ⟨hwf.2.1 o, rfl⟩
    | some e =>
      obtain ⟨w, hw, hwok, hshown⟩ := hmerge o e hget
      obtain rfl := Except.ok.inj (hw.symm.trans (KMap.merge_some hcoins hget))
      rw [vis_of_get hget]
      exact ⟨hwok, hshown⟩
  refine ⟨_, hp, ⟨fun o => (hkey o).1, hwf.2.2⟩, ?_⟩
  funext o
  exact (hkey o).2

theorem writeCoin_eq (o : COutPoint) (child : CCoinsCacheEntry) (old : Option Coin) :
    writeCoin o child old = .ok (if child.dirty then child.coin.live else old) := by
  unfold writeCoin Coin.live
  cases child.dirty with
  | false => rfl
  | true => cases child.coin.isSpent <;> rfl

theorem writeAnchor_ok (ops : TreeOps T) (rt : Uint256) (child : CAnchorsSaplingCacheEntry T)
    (old : Option T) : ∃ w, writeAnchor ops rt child old = .ok w := by
  unfold writeAnchor
  split
  · exact ⟨_, rfl⟩
  · split
    · exact ⟨_, rfl⟩
    · split
      · exact ⟨_, rfl⟩
      · exact ⟨_, rfl⟩

theorem writeNullifier_ok (nf : Uint256) (child : CNullifiersCacheEntry) (old : Option Unit) :
    ∃ w, writeNullifier nf child old = .ok w := by
  unfold writeNullifier
  split
  · exact ⟨_, rfl⟩
  · split
    · exact ⟨_, rfl⟩
    · exact ⟨_, rfl⟩

theorem baseBatchWrite_ok (ops : TreeOps T) (base : BaseView T) (child : CCoinsViewCache T) :
    ∃ coins anchors nullifiers, KMap.merge writeCoin child.cacheCoins base.coins = .ok coins ∧
      KMap.merge (writeAnchor ops) child.cacheSaplingAnchors base.saplingAnchors = .ok anchors ∧
      KMap.merge writeNullifier child.cacheSaplingNullifiers base.saplingNullifiers = .ok nullifiers ∧
      base.batchWrite ops child = .ok ⟨coins, child.hashBlock, anchors, nullifiers,
        if child.hashSaplingAnchor = UINT256_ZERO then base.hashSaplingAnchor
        else some child.hashSaplingAnchor⟩ := by
  obtain ⟨coins, hc⟩ := KMap.merge_ok fun o e _ => ⟨_, writeCoin_eq o e _⟩
  obtain ⟨anchors, ha⟩ := KMap.merge_ok fun rt e _ => writeAnchor_ok ops rt e _
  obtain ⟨nullifiers, hn⟩ := KMap.merge_ok fun nf e _ => writeNullifier_ok nf e _
  refine ⟨coins, anchors, nullifiers, hc, ha, hn, ?_⟩
  unfold BaseView.batchWrite
  rw [hc, ha, hn]
  rfl

theorem baseBatchWrite_spec (ops : TreeOps T) (hwf : WF base [c]) :
    ∃ base', base.batchWrite ops c = .ok base' ∧ vis base' [] = vis base [c] := by
  obtain ⟨coins, anchors, nullifiers, hc, -, -, hb⟩ := baseBatchWrite_ok ops base c
  refine ⟨_, hb, ?_⟩
  funext o
  show (KMap.get coins o).bind Coin.live = _
  cases hget : KMap.get c.cacheCoins o with
  | none =>
    rw [KMap.merge_none hc hget, vis_of_get_none hget]
    rfl
  | some e =>
    have hspec := KMap.merge_some hc hget
    rw [writeCoin_eq] at hspec
    rw [← Except.ok.inj hspec, vis_of_get hget]
    cases hd : e.dirty with
    | false =>
      rw [(hwf.1 o e hget).clean hd]
      rfl
    | true =>
      cases hs : e.coin.isSpent <;> simp [Coin.live, hs]

theorem vis_cleared (base : BaseView T) (c : CCoinsViewCache T) (below : List (CCoinsViewCache T)) :
    vis base (c.cleared :: below) = vis base below := rfl

theorem WF.cleared (c : CCoinsViewCache T) (h : WF base below) : WF base (c.cleared :: below) := by
  refine ⟨fun o e hget => ?_, h⟩
  simp [CCoinsViewCache.cleared] at hget

/-! ## Stacks of caches and of plain maps -/

/-- A base view with the cache layers over it, topmost first. -/
structure CacheStack (T : Type) where
  base : BaseView T
  layers : List (CCoinsViewCache T)

/-- A coin `AddCoin` may be given: it asserts that the coin is unspent. -/
structure LiveCoin where
  coin : Coin
  unspent : coin.isSpent = false

/-- The operations. Coins are added and spent in the topmost layer; every layer may be read, uncached and flushed
    (`depth` counts from the top), and layers may come and go. -/
inductive CoinOp where
  | addCoin (o : COutPoint) (coin : LiveCoin) (possible_overwrite : Bool)
  | spendCoin (o : COutPoint)
  | getCoin (depth : Nat) (o : COutPoint)
  | haveCoin (depth : Nat) (o : COutPoint)
  | accessCoin (depth : Nat) (o : COutPoint)
  | uncache (depth : Nat) (o : COutPoint)
  | flush (depth : Nat)
  | newLayer
  | dropLayer

/-- The answer of an operation; `coin none` is `GetCoin` returning `false`. -/
inductive Answer where
  | unit
  | bool (b : Bool)
  | coin (c : Option Coin)
  deriving DecidableEq, Repr

/-- The answer with a spent coin read as an absent one. -/
def Answer.visible : Answer → Answer
  | .coin c => .coin (c.bind Coin.live)
  | a => a

/-- Runs `f` on the stack below the first `depth` layers. -/
def atDepth {α : Type} (f : List (CCoinsViewCache T) → α × List (CCoinsViewCache T)) :
    Nat → List (CCoinsViewCache T) → α × List (CCoinsViewCache T)
  | 0, layers => f layers
  | _ + 1, [] => f []
  | depth + 1, c :: below => ((atDepth f depth below).1, c :: (atDepth f depth below).2)

/-- `Flush` of the layer at `depth`. -/
def flushAt (ops : TreeOps T) : Nat → BaseView T → List (CCoinsViewCache T) →
    Except CacheError (BaseView T × List (CCoinsViewCache T))
  | 0, base, layers => flush ops base layers
  | _ + 1, base, [] => .ok (base, [])
  | depth + 1, base, c :: below =>
    match flushAt ops depth base below with
    | .error e => .error e
    | .ok (base, below) => .ok (base, c :: below)

/-- `Uncache` on the topmost layer of a stack. -/
def uncacheTop (o : COutPoint) : List (CCoinsViewCache T) → Unit × List (CCoinsViewCache T)
  | [] => ((), [])
  | c :: below => ((), c.uncache o :: below)

def CacheStack.step (ops : TreeOps T) (s : CacheStack T) : CoinOp → Except CacheError (Answer × CacheStack T)
  | .addCoin o coin possible_overwrite =>
    match s.layers with
    | [] => .ok (.unit, s)
    | c :: below =>
      match c.addCoin o coin.coin possible_overwrite with
      | .error e => .error e
      | .ok c => .ok (.unit, ⟨s.base, c :: below⟩)
  | .spendCoin o =>
    match s.layers with
    | [] => .ok (.coin none, s)
    | c :: below =>
      let r := KrovaCoin.spendCoin s.base c below o
      .ok (.coin r.1, ⟨s.base, r.2⟩)
  | .getCoin depth o =>
    let r := atDepth (fun layers => KrovaCoin.getCoin s.base layers o) depth s.layers
    .ok (.coin r.1, ⟨s.base, r.2⟩)
  | .haveCoin depth o =>
    let r := atDepth (fun layers => KrovaCoin.haveCoin s.base layers o) depth s.layers
    .ok (.bool r.1, ⟨s.base, r.2⟩)
  | .accessCoin depth o =>
    let r := atDepth (fun layers => KrovaCoin.accessCoin s.base layers o) depth s.layers
    .ok (.coin (some r.1), ⟨s.base, r.2⟩)
  | .uncache depth o => .ok (.unit, ⟨s.base, (atDepth (uncacheTop o) depth s.layers).2⟩)
  | .flush depth =>
    match flushAt ops depth s.base s.layers with
    | .error e => .error e
    | .ok (base, layers) => .ok (.unit, ⟨base, layers⟩)
  | .newLayer => .ok (.unit, ⟨s.base, .new :: s.layers⟩)
  | .dropLayer => .ok (.unit, ⟨s.base, s.layers.tail⟩)

/-- A sequence of operations with the answers. -/
def CacheStack.run (ops : TreeOps T) : CacheStack T → List CoinOp → Except CacheError (List Answer × CacheStack T)
  | s, [] => .ok ([], s)
  | s, op :: rest =>
    match s.step ops op with
    | .error e => .error e
    | .ok (a, s) =>
      match CacheStack.run ops s rest with
      | .error e => .error e
      | .ok (answers, s) => .ok (a :: answers, s)

/-- The plain map at `depth`; the last one is the base. -/
def planeAt : Nat → List PlainMap → PlainMap
  | 0, m :: _ => m
  | depth + 1, _ :: m :: rest => planeAt depth (m :: rest)
  | _ + 1, [m] => m
  | _, [] => fun _ => none

/-- `Flush` on plain maps: the parent's map becomes the child's. -/
def flushPlain : Nat → List PlainMap → List PlainMap
  | 0, m :: _ :: rest => m :: m :: rest
  | depth + 1, m :: rest => m :: flushPlain depth rest
  | _, ms => ms

/-- One operation on plain maps, the base last. -/
def plainStep (ms : List PlainMap) : CoinOp → Answer × List PlainMap
  | .addCoin o coin _ =>
    match ms with
    | m :: below :: rest => (.unit, PlainMap.add m o coin.coin :: below :: rest)
    | ms => (.unit, ms)
  | .spendCoin o =>
    match ms with
    | m :: below :: rest => (.coin (m o), PlainMap.spend m o :: below :: rest)
    | ms => (.coin none, ms)
  | .getCoin depth o => (.coin (planeAt depth ms o), ms)
  | .haveCoin depth o => (.bool (planeAt depth ms o).isSome, ms)
  | .accessCoin depth o => (.coin (some ((planeAt depth ms o).getD coinEmpty)), ms)
  | .uncache _ _ => (.unit, ms)
  | .flush depth => (.unit, flushPlain depth ms)
  | .newLayer =>
    match ms with
    | m :: rest => (.unit, m :: m :: rest)
    | [] => (.unit, [])
  | .dropLayer =>
    match ms with
    | _ :: below :: rest => (.unit, below :: rest)
    | ms => (.unit, ms)

/-- A sequence of operations on plain maps. -/
def plainRun : List PlainMap → List CoinOp → List Answer × List PlainMap
  | ms, [] => ([], ms)
  | ms, op :: rest =>
    ((plainStep ms op).1 :: (plainRun (plainStep ms op).2 rest).1, (plainRun (plainStep ms op).2 rest).2)

/-- `AddCoin` without `possible_overwrite` is called only where the layer shows no coin. -/
def CoinOp.Admissible (ms : List PlainMap) : CoinOp → Prop
  | .addCoin o _ false => planeAt 0 ms o = none
  | _ => True

/-- Every operation of the sequence is admissible where it is executed. -/
def AdmissibleRun : List PlainMap → List CoinOp → Prop
  | _, [] => True
  | ms, op :: rest => op.Admissible ms ∧ AdmissibleRun (plainStep ms op).2 rest

/-! ## One step -/

theorem planeAt_views_zero (base : BaseView T) (layers : List (CCoinsViewCache T)) :
    planeAt 0 (views base layers) = vis base layers := by
  obtain ⟨rest, h⟩ := views_eq_vis_cons base layers
  rw [h]
  rfl

theorem planeAt_views_succ (base : BaseView T) (c : CCoinsViewCache T) (below : List (CCoinsViewCache T))
    (depth : Nat) : planeAt (depth + 1) (views base (c :: below)) = planeAt depth (views base below) := by
  obtain ⟨rest, h⟩ := views_eq_vis_cons base below
  show planeAt (depth + 1) (_ :: views base below) = _
  rw [h]
  rfl

theorem planeAt_base (base : BaseView T) (depth : Nat) : planeAt depth (views base []) = vis base [] := by
  cases depth <;> rfl

theorem atDepth_read {α : Type} {P : PlainMap → α → Prop} {f : List (CCoinsViewCache T) → α × List (CCoinsViewCache T)}
    (hf : ∀ layers, WF base layers → P (vis base layers) (f layers).1 ∧ ReadOk base layers (f layers).2) :
    ∀ (depth : Nat) (layers : List (CCoinsViewCache T)), WF base layers →
      P (planeAt depth (views base layers)) (atDepth f depth layers).1 ∧ ReadOk base layers (atDepth f depth layers).2
  | 0, layers, hwf => by
    rw [planeAt_views_zero]
    exact hf layers hwf
  | depth + 1, [], hwf => by
    exact hf [] hwf
  | depth + 1, c :: below, hwf => by
    obtain ⟨hp, hread⟩ := atDepth_read hf depth below hwf.2
    rw [planeAt_views_succ]
    exact ⟨hp, hread.cons c⟩

theorem flushAt_spec (ops : TreeOps T) : ∀ (depth : Nat) (base : BaseView T)
    (layers : List (CCoinsViewCache T)), WF base layers →
      ∃ base' layers', flushAt ops depth base layers = .ok (base', layers') ∧ WF base' layers' ∧
        views base' layers' = flushPlain depth (views base layers) ∧
        vis base' layers' = vis base layers
  | 0, base, [], _ => ⟨base, [], rfl, trivial, rfl, rfl⟩
  | 0, base, [c], hwf => by
    obtain ⟨base', hb, hvis⟩ := baseBatchWrite_spec ops hwf
    have htop : vis base' [c.cleared] = vis base [c] := by rw [vis_cleared, hvis]
    refine ⟨base', [c.cleared], ?_, WF.cleared c trivial, ?_, htop⟩
    · simp only [flushAt, flush, hb]
      rfl
    · show [vis base' [c.cleared], vis base' []] = [vis base [c], vis base [c]]
      rw [htop, hvis]
  | 0, base, c :: p :: below, hwf => by
    obtain ⟨p', hp, hwf', hvis⟩ := batchWrite_spec hwf
    have htop : vis base (c.cleared :: p' :: below) = vis base (c :: p :: below) := by
      rw [vis_cleared, hvis]
    refine ⟨base, c.cleared :: p' :: below, ?_, WF.cleared c hwf', ?_, htop⟩
    · simp only [flushAt, flush, hp]
      rfl
    · show vis base (c.cleared :: p' :: below) :: vis base (p' :: below) :: views base below =
        vis base (c :: p :: below) :: vis base (c :: p :: below) :: views base below
      rw [htop, hvis]
  | depth + 1, base, [], _ => ⟨base, [], rfl, trivial, by cases depth <;> rfl, rfl⟩
  | depth + 1, base, c :: below, hwf => by
    obtain ⟨base', below', hfl, hwf', hviews, hvis⟩ := flushAt_spec ops depth base below hwf.2
    refine ⟨base', c :: below', ?_, hwf.cons_congr hvis hwf', ?_, vis_cons_congr c hvis⟩
    · rw [flushAt, hfl]
    · show vis base' (c :: below') :: views base' below' = vis base (c :: below) :: _
      rw [vis_cons_congr c hvis, hviews]

theorem getD_live {m : Option Coin} (hm : m.bind Coin.live = m) : (m.getD coinEmpty).live = m := by
  cases m with
  | none => rfl
  | some c => exact hm

theorem live_live (c : Coin) : c.live.bind Coin.live = c.live := by
  cases h : c.isSpent <;> simp [Coin.live, h]

theorem vis_live (base : BaseView T) : ∀ (layers : List (CCoinsViewCache T)) (o : COutPoint),
    (vis base layers o).bind Coin.live = vis base layers o
  | [], o => by
    cases h : KMap.get base.coins o with
    | none => simp [vis, h]
    | some c =>
      have : vis base [] o = c.live := by simp [vis, h]
      rw [this, live_live]
  | c :: below, o => by
    cases h : KMap.get c.cacheCoins o with
    | none => rw [vis_of_get_none h, vis_live base below o]
    | some e => rw [vis_of_get h, live_live]

theorem planeAt_live (base : BaseView T) : ∀ (depth : Nat) (layers : List (CCoinsViewCache T))
    (o : COutPoint), (planeAt depth (views base layers) o).bind Coin.live = planeAt depth (views base layers) o
  | 0, layers, o => by rw [planeAt_views_zero, vis_live]
  | depth + 1, [], o => by rw [planeAt_base, vis_live]
  | depth + 1, c :: below, o => by rw [planeAt_views_succ, planeAt_live base depth below o]

/-- **One step of the caches is one step of the plain maps.** -/
theorem CacheStack.step_spec (ops : TreeOps T) {s : CacheStack T} {op : CoinOp}
    (hwf : WF s.base s.layers) (hadm : op.Admissible (views s.base s.layers)) :
    ∃ a s', s.step ops op = .ok (a, s') ∧ WF s'.base s'.layers ∧
      views s'.base s'.layers = (plainStep (views s.base s.layers) op).2 ∧
      a.visible = (plainStep (views s.base s.layers) op).1.visible := by
  obtain ⟨base, layers⟩ := s
  cases op with
  | addCoin o coin possible_overwrite =>
    cases layers with
    | nil => exact ⟨.unit, _, rfl, hwf, rfl, rfl⟩
    | cons c below =>
      obtain ⟨rest, hrest⟩ := views_eq_vis_cons base below
      have hpre : possible_overwrite = false → vis base (c :: below) o = none := by
        intro hpo
        subst hpo
        exact hadm
      obtain ⟨c', hc', hwf', hvis⟩ := addCoin_spec coin.unspent hwf hpre
      refine ⟨.unit, ⟨base, c' :: below⟩, ?_, hwf', ?_, ?_⟩
      · simp only [step, hc']
      · simp only [views, hrest, plainStep, hvis]
      · simp only [views, hrest, plainStep]
  | spendCoin o =>
    cases layers with
    | nil => exact ⟨.coin none, _, rfl, hwf, rfl, rfl⟩
    | cons c below =>
      obtain ⟨rest, hrest⟩ := views_eq_vis_cons base below
      obtain ⟨r, c', below', hs, hr, hwf', hbelow, hvis⟩ := spendCoin_spec (o := o) hwf
      refine ⟨.coin r, ⟨base, c' :: below'⟩, ?_, hwf', ?_, ?_⟩
      · simp only [step, hs]
      · simp only [views, hrest, plainStep, hvis, hbelow]
      · simp only [views, hrest, plainStep, Answer.visible, hr, vis_live]
  | getCoin depth o =>
    obtain ⟨hp, hread⟩ := atDepth_read (P := fun m (a : Option Coin) => a.bind Coin.live = m o)
      (f := fun layers => KrovaCoin.getCoin base layers o) (fun layers _ => getCoin_spec base layers o) depth layers hwf
    refine ⟨_, _, rfl, hread.wf hwf, hread.views, ?_⟩
    simp only [plainStep, Answer.visible, hp, planeAt_live]
  | haveCoin depth o =>
    obtain ⟨hp, hread⟩ := atDepth_read (P := fun m (a : Bool) => a = (m o).isSome)
      (f := fun layers => KrovaCoin.haveCoin base layers o)
      (fun layers _ => ⟨haveCoin_eq base layers o, (getCoin_spec base layers o).2⟩)
      depth layers hwf
    refine ⟨_, _, rfl, hread.wf hwf, hread.views, ?_⟩
    simp only [plainStep, Answer.visible, hp]
  | accessCoin depth o =>
    obtain ⟨hp, hread⟩ := atDepth_read (P := fun m (a : Coin) => a.live = m o)
      (f := fun layers => KrovaCoin.accessCoin base layers o)
      (fun layers _ => ⟨accessCoin_live base layers o, (getCoin_spec base layers o).2⟩)
      depth layers hwf
    refine ⟨_, _, rfl, hread.wf hwf, hread.views, ?_⟩
    simp only [plainStep, Answer.visible, Option.bind_some, hp, getD_live (planeAt_live ..)]
  | uncache depth o =>
    obtain ⟨-, hread⟩ := atDepth_read (P := fun _ (_ : Unit) => True)
      (f := uncacheTop o) (fun layers hl => by
        cases layers with
        | nil => exact ⟨trivial, .refl _ _⟩
        | cons c below =>
          obtain ⟨hw, hv⟩ := uncache_spec c below o hl
          refine ⟨trivial, ⟨?_, fun _ => hw⟩⟩
          show vis base (c.uncache o :: below) :: _ = vis base (c :: below) :: _
          rw [hv]) depth layers hwf
    exact ⟨_, _, rfl, hread.wf hwf, hread.views, rfl⟩
  | flush depth =>
    obtain ⟨base', layers', hfl, hwf', hviews, -⟩ := flushAt_spec ops depth base layers hwf
    refine ⟨.unit, ⟨base', layers'⟩, ?_, hwf', hviews, rfl⟩
    simp only [step, hfl]
  | newLayer =>
    obtain ⟨rest, hrest⟩ := views_eq_vis_cons base layers
    have hnew : vis base (.new :: layers) = vis base layers := by
      funext o
      simp [vis, CCoinsViewCache.new]
    refine ⟨.unit, _, rfl, ⟨fun o e hget => ?_, hwf⟩, ?_, ?_⟩
    · simp [CCoinsViewCache.new] at hget
    · show vis base (.new :: layers) :: views base layers = _
      rw [hnew, hrest]
      rfl
    · rw [hrest]
      rfl
  | dropLayer =>
    cases layers with
    | nil => exact ⟨.unit, _, rfl, hwf, rfl, rfl⟩
    | cons c below =>
      obtain ⟨rest, hrest⟩ := views_eq_vis_cons base below
      refine ⟨.unit, _, rfl, hwf.2, ?_, ?_⟩
      · simp only [views, hrest, plainStep, List.tail_cons]
      · simp only [views, hrest, plainStep]

/-! ## Whole runs -/

theorem CacheStack.run_spec (ops : TreeOps T) : ∀ {script : List CoinOp} {s : CacheStack T},
    WF s.base s.layers → AdmissibleRun (views s.base s.layers) script →
      ∃ answers s', s.run ops script = .ok (answers, s') ∧ WF s'.base s'.layers ∧
        views s'.base s'.layers = (plainRun (views s.base s.layers) script).2 ∧
        answers.map Answer.visible = (plainRun (views s.base s.layers) script).1.map Answer.visible
  | [], s, hwf, _ => ⟨[], s, rfl, hwf, rfl, rfl⟩
  | op :: rest, s, hwf, hadm => by
    obtain ⟨a, s1, hs1, hwf1, hv1, ha⟩ := s.step_spec ops hwf hadm.1
    obtain ⟨answers, s2, hs2, hwf2, hv2, hans⟩ := run_spec ops hwf1 (hv1 ▸ hadm.2)
    rw [hv1] at hv2 hans
    refine ⟨a :: answers, s2, ?_, hwf2, hv2, ?_⟩
    · simp only [run, hs1, hs2]
    · simp only [plainRun, List.map_cons, ha, hans]

/-- Tree operations for runs without anchors. -/
def unitTree : TreeOps Unit := ⟨fun _ => 0, ()⟩

def sampleCoin : LiveCoin := ⟨⟨false, false, ⟨1, []⟩, 1⟩, rfl⟩

/-- A base view with that coin at the first output of transaction 7. -/
def sampleBase : BaseView Unit :=
  ⟨KMap.set ∅ ⟨7, 0⟩ (some sampleCoin.coin), UINT256_ZERO, ∅, ∅, none⟩

/-- Two layers: the coin is spent and added again in the upper one, which is then flushed. -/
def sampleScript : List CoinOp :=
  [.newLayer, .newLayer, .spendCoin ⟨7, 0⟩, .addCoin ⟨7, 0⟩ sampleCoin false, .flush 0,
    .haveCoin 1 ⟨7, 0⟩]

end KrovaCoin
