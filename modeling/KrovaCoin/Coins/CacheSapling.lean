import KrovaCoin.Coins.CacheRefinement

/-!
# Flushing the Sapling state

What a stack of caches answers for nullifiers, anchors and the best anchor, and when a flush makes the
parent answer as the child did.

Principal results: `run_saplingInv`, `flush_sapling_iff`.
-/

namespace KrovaCoin

open Lib

variable {T : Type} {base : BaseView T} {c : CCoinsViewCache T} {below : List (CCoinsViewCache T)} {ops : TreeOps T}
  {rt : Uint256} {K : T → Prop} {layers : List (CCoinsViewCache T)}

/-! ## Answers -/

/-- The nullifiers a stack shows as spent. -/
def nullVis (base : BaseView T) : List (CCoinsViewCache T) → Uint256 → Bool
  | [], nf => (KMap.get base.saplingNullifiers nf).isSome
  | c :: below, nf =>
    match KMap.get c.cacheSaplingNullifiers nf with
    | some e => e.entered
    | none => nullVis base below nf

/-- The anchors a stack shows. -/
def anchorVis (ops : TreeOps T) (base : BaseView T) : List (CCoinsViewCache T) → Uint256 → Option T
  | [], rt => base.getSaplingAnchorAt ops rt
  | c :: below, rt =>
    match KMap.get c.cacheSaplingAnchors rt with
    | some e => if e.entered then some e.tree else none
    | none => anchorVis ops base below rt

/-- The best anchor a stack shows. -/
def bestVis (ops : TreeOps T) (base : BaseView T) : List (CCoinsViewCache T) → Uint256
  | [] => base.getBestAnchor ops
  | c :: below => if c.hashSaplingAnchor = UINT256_ZERO then bestVis ops base below else c.hashSaplingAnchor

variable {nf : Uint256}

theorem nullVis_of_get {e : CNullifiersCacheEntry} (h : KMap.get c.cacheSaplingNullifiers nf = some e) :
    nullVis base (c :: below) nf = e.entered := by
  simp [nullVis, h]

theorem nullVis_of_get_none (h : KMap.get c.cacheSaplingNullifiers nf = none) :
    nullVis base (c :: below) nf = nullVis base below nf := by
  simp [nullVis, h]

theorem anchorVis_of_get {e : CAnchorsSaplingCacheEntry T} (h : KMap.get c.cacheSaplingAnchors rt = some e) :
    anchorVis ops base (c :: below) rt = if e.entered then some e.tree else none := by
  simp [anchorVis, h]

theorem anchorVis_of_get_none (h : KMap.get c.cacheSaplingAnchors rt = none) :
    anchorVis ops base (c :: below) rt = anchorVis ops base below rt := by
  simp [anchorVis, h]

structure SameAnswers (ops : TreeOps T) (base : BaseView T) (layers : List (CCoinsViewCache T))
    (base' : BaseView T) (layers' : List (CCoinsViewCache T)) : Prop where
  nullifier : ∀ nf, nullVis base' layers' nf = nullVis base layers nf
  anchor : ∀ rt, anchorVis ops base' layers' rt = anchorVis ops base layers rt
  best : bestVis ops base' layers' = bestVis ops base layers

def SameViews (ops : TreeOps T) (base : BaseView T) : List (CCoinsViewCache T) → List (CCoinsViewCache T) → Prop
  | [], [] => True
  | c :: below, c' :: below' =>
    SameAnswers ops base (c :: below) base (c' :: below') ∧ SameViews ops base below below'
  | _, _ => False

theorem SameAnswers.refl (ops : TreeOps T) (base : BaseView T) (layers : List (CCoinsViewCache T)) :
    SameAnswers ops base layers base layers := ⟨fun _ => rfl, fun _ => rfl, rfl⟩

theorem SameViews.refl (ops : TreeOps T) (base : BaseView T) :
    ∀ layers : List (CCoinsViewCache T), SameViews ops base layers layers
  | [] => trivial
  | _ :: below => ⟨.refl _ _ _, SameViews.refl ops base below⟩

theorem SameViews.answers : ∀ {layers layers' : List (CCoinsViewCache T)}, SameViews ops base layers layers' →
      SameAnswers ops base layers base layers'
  | [], [], _ => .refl _ _ _
  | _ :: _, _ :: _, h => h.1

variable {base' : BaseView T} {below' : List (CCoinsViewCache T)}

theorem SameAnswers.cons (c : CCoinsViewCache T) (h : SameAnswers ops base below base' below') :
    SameAnswers ops base (c :: below) base' (c :: below') := by
  refine ⟨fun nf => ?_, fun rt => ?_, ?_⟩
  · cases hget : KMap.get c.cacheSaplingNullifiers nf with
    | none => rw [nullVis_of_get_none hget, nullVis_of_get_none hget, h.nullifier]
    | some e => rw [nullVis_of_get hget, nullVis_of_get hget]
  · cases hget : KMap.get c.cacheSaplingAnchors rt with
    | none => rw [anchorVis_of_get_none hget, anchorVis_of_get_none hget, h.anchor]
    | some e => rw [anchorVis_of_get hget, anchorVis_of_get hget]
  · simp only [bestVis, h.best]

/-! ## The invariant -/

/-- The stored trees sit under their own roots and satisfy `K`; clean entries repeat what is visible below. -/
def SaplingInv (ops : TreeOps T) (K : T → Prop) (base : BaseView T) : List (CCoinsViewCache T) → Prop
  | [] => ∀ rt t, KMap.get base.saplingAnchors rt = some t → ops.root t = rt ∧ K t
  | c :: below =>
    (∀ nf e, KMap.get c.cacheSaplingNullifiers nf = some e → e.dirty = false →
      e.entered = nullVis base below nf) ∧
    (∀ rt e, KMap.get c.cacheSaplingAnchors rt = some e → (ops.root e.tree = rt ∧ K e.tree) ∧
      (e.dirty = false → e.entered = true ∧ anchorVis ops base below rt = some e.tree)) ∧
    SaplingInv ops K base below

theorem anchorVis_known (hK : K ops.emptyTree) : ∀ {layers : List (CCoinsViewCache T)} {rt : Uint256} {t : T},
    SaplingInv ops K base layers → anchorVis ops base layers rt = some t → ops.root t = rt ∧ K t
  | [], rt, t, hinv, h => by
    simp only [anchorVis, BaseView.getSaplingAnchorAt] at h
    split at h
    · rename_i hrt
      cases h
      exact ⟨hrt.symm, hK⟩
    · exact hinv rt t h
  | c :: below, rt, t, hinv, h => by
    cases hget : KMap.get c.cacheSaplingAnchors rt with
    | none =>
      rw [anchorVis_of_get_none hget] at h
      exact anchorVis_known hK hinv.2.2 h
    | some e =>
      rw [anchorVis_of_get hget] at h
      split at h
      · cases h
        exact (hinv.2.1 rt e hget).1
      · cases h

theorem SaplingInv.cons_congr (h : SaplingInv ops K base (c :: below))
    (hsame : SameAnswers ops base below base below') (hbelow : SaplingInv ops K base below') :
    SaplingInv ops K base (c :: below') := by
  refine ⟨fun nf e hget hd => ?_, fun rt e hget => ?_, hbelow⟩
  · rw [hsame.nullifier]
    exact h.1 nf e hget hd
  · rw [hsame.anchor]
    exact h.2.1 rt e hget

/-! ## Reads -/

/-- A read keeps all answers of all layers and the invariant. -/
structure SaplingRead (ops : TreeOps T) (K : T → Prop) (base : BaseView T)
    (layers layers' : List (CCoinsViewCache T)) : Prop where
  same : SameViews ops base layers layers'
  inv : SaplingInv ops K base layers → SaplingInv ops K base layers'

theorem SaplingRead.refl (ops : TreeOps T) (K : T → Prop) (base : BaseView T)
    (layers : List (CCoinsViewCache T)) : SaplingRead ops K base layers layers :=
  ⟨.refl ops base layers, id⟩

theorem SaplingRead.cons (c : CCoinsViewCache T) (h : SaplingRead ops K base below below') :
    SaplingRead ops K base (c :: below) (c :: below') :=
  ⟨⟨.cons c h.same.answers, h.same⟩, fun hinv => hinv.cons_congr h.same.answers (h.inv hinv.2.2)⟩

variable {c' : CCoinsViewCache T}

theorem SaplingRead.layer (hK : K ops.emptyTree) (h : SaplingRead ops K base below below')
    (hnull : ∀ nf, KMap.get c'.cacheSaplingNullifiers nf = KMap.get c.cacheSaplingNullifiers nf ∨
      KMap.get c.cacheSaplingNullifiers nf = none ∧
        KMap.get c'.cacheSaplingNullifiers nf = some ⟨nullVis base below nf, false⟩)
    (hanchor : ∀ rt, KMap.get c'.cacheSaplingAnchors rt = KMap.get c.cacheSaplingAnchors rt ∨
      KMap.get c.cacheSaplingAnchors rt = none ∧ ∃ tree, anchorVis ops base below rt = some tree ∧
        KMap.get c'.cacheSaplingAnchors rt = some ⟨true, tree, false⟩)
    (hbest : c'.hashSaplingAnchor = c.hashSaplingAnchor ∨
      c.hashSaplingAnchor = UINT256_ZERO ∧ c'.hashSaplingAnchor = bestVis ops base below) :
    SaplingRead ops K base (c :: below) (c' :: below') := by
  have hsame := h.same.answers
  refine ⟨⟨⟨fun nf => ?_, fun rt => ?_, ?_⟩, h.same⟩,
    fun hinv => ⟨fun nf e hget hd => ?_, fun rt e hget => ?_, h.inv hinv.2.2⟩⟩
  · rcases hnull nf with heq | ⟨hnone, hnew⟩
    · rw [← (hsame.cons c).nullifier nf, nullVis, nullVis, heq]
    · rw [nullVis_of_get_none hnone, nullVis_of_get hnew]
  · rcases hanchor rt with heq | ⟨hnone, tree, htree, hnew⟩
    · rw [← (hsame.cons c).anchor rt, anchorVis, anchorVis, heq]
    · rw [anchorVis_of_get_none hnone, anchorVis_of_get hnew, htree, if_pos rfl]
  · rcases hbest with heq | ⟨hzero, hnew⟩
    · rw [bestVis, bestVis, heq, hsame.best]
    · rw [bestVis, bestVis, hnew, if_pos hzero, hsame.best, ite_self]
  · rw [hsame.nullifier]
    rcases hnull nf with heq | ⟨-, hnew⟩
    · exact hinv.1 nf e (heq ▸ hget) hd
    · rw [hnew] at hget
      cases hget
      rfl
  · rw [hsame.anchor]
    rcases hanchor rt with heq | ⟨-, tree, htree, hnew⟩
    · exact hinv.2.1 rt e (heq ▸ hget)
    · rw [hnew] at hget
      cases hget
      exact ⟨anchorVis_known hK hinv.2.2 htree, fun _ => ⟨rfl, htree⟩⟩

theorem getNullifier_spec (hK : K ops.emptyTree) (base : BaseView T) :
    ∀ (layers : List (CCoinsViewCache T)) (nf : Uint256), (getNullifier base layers nf).1 = nullVis base layers nf ∧
        SaplingRead ops K base layers (getNullifier base layers nf).2
  | [], nf => ⟨rfl, .refl _ _ _ _⟩
  | c :: below, nf => by
    obtain ⟨hval, hread⟩ := getNullifier_spec hK base below nf
    unfold getNullifier
    cases hget : KMap.get c.cacheSaplingNullifiers nf with
    | some e => exact ⟨(nullVis_of_get hget).symm, .refl _ _ _ _⟩
    | none =>
      refine ⟨by rw [nullVis_of_get_none hget]; exact hval,
        hread.layer hK (fun nf' => ?_) (fun _ => .inl rfl) (.inl rfl)⟩
      rw [KMap.get_set, hval]
      split
      · rename_i h
        exact .inr ⟨h ▸ hget, by rw [h]⟩
      · exact .inl rfl

theorem getSaplingAnchorAt_spec (hK : K ops.emptyTree) (base : BaseView T) :
    ∀ (layers : List (CCoinsViewCache T)) (rt : Uint256),
      (getSaplingAnchorAt ops base layers rt).1 = anchorVis ops base layers rt ∧
        SaplingRead ops K base layers (getSaplingAnchorAt ops base layers rt).2
  | [], rt => ⟨rfl, .refl _ _ _ _⟩
  | c :: below, rt => by
    obtain ⟨hval, hread⟩ := getSaplingAnchorAt_spec hK base below rt
    unfold getSaplingAnchorAt
    cases hget : KMap.get c.cacheSaplingAnchors rt with
    | some e => exact ⟨(anchorVis_of_get hget).symm, .refl _ _ _ _⟩
    | none =>
      generalize getSaplingAnchorAt ops base below rt = g at hval hread ⊢
      obtain ⟨_ | tree, below'⟩ := g
      · exact ⟨by rw [anchorVis_of_get_none hget]; exact hval, hread.cons c⟩
      · refine ⟨by rw [anchorVis_of_get_none hget]; exact hval,
          hread.layer hK (fun _ => .inl rfl) (fun rt' => ?_) (.inl rfl)⟩
        rw [KMap.get_set]
        split
        · rename_i h
          exact .inr ⟨h ▸ hget, tree, by rw [h]; exact hval.symm, rfl⟩
        · exact .inl rfl

theorem getBestAnchor_spec (hK : K ops.emptyTree) (base : BaseView T) : ∀ layers : List (CCoinsViewCache T),
      (getBestAnchor ops base layers).1 = bestVis ops base layers ∧
        SaplingRead ops K base layers (getBestAnchor ops base layers).2
  | [] => ⟨rfl, .refl _ _ _ _⟩
  | c :: below => by
    obtain ⟨hval, hread⟩ := getBestAnchor_spec hK base below
    unfold getBestAnchor
    by_cases hnull : c.hashSaplingAnchor = UINT256_ZERO
    · rw [if_pos hnull]
      exact ⟨by rw [bestVis, if_pos hnull]; exact hval,
        hread.layer hK (fun _ => .inl rfl) (fun _ => .inl rfl) (.inr ⟨hnull, hval⟩)⟩
    · rw [if_neg hnull]
      exact ⟨by rw [bestVis, if_neg hnull], .refl _ _ _ _⟩

/-! ## Operations that do not touch the Sapling state -/

/-- A layer without its coins and its block hash. -/
def CCoinsViewCache.strip (c : CCoinsViewCache T) : CCoinsViewCache T :=
  { c with cacheCoins := ∅, hashBlock := UINT256_ZERO }

theorem SaplingRead.of_strip (hK : K ops.emptyTree) (base : BaseView T) : ∀ {layers layers' : List (CCoinsViewCache T)},
      layers'.map CCoinsViewCache.strip = layers.map CCoinsViewCache.strip → SaplingRead ops K base layers layers'
  | [], [], _ => .refl _ _ _ _
  | c :: below, c' :: below', h => by
    simp only [List.map_cons, List.cons.injEq, CCoinsViewCache.strip, CCoinsViewCache.mk.injEq] at h
    obtain ⟨⟨-, -, hbest, hanchors, hnulls⟩, hbelow⟩ := h
    exact (SaplingRead.of_strip hK base hbelow).layer hK (fun _ => .inl (by rw [hnulls]))
      (fun _ => .inl (by rw [hanchors])) (.inl hbest)

variable {o : COutPoint}

theorem fetchCoin_strip {baseGet : COutPoint → Option Coin × List (CCoinsViewCache T)}
    (h : (baseGet o).2.map CCoinsViewCache.strip = below.map CCoinsViewCache.strip) :
    ((fetchCoin baseGet c below o).2.1 :: (fetchCoin baseGet c below o).2.2).map
      CCoinsViewCache.strip = (c :: below).map CCoinsViewCache.strip := by
  unfold fetchCoin
  split
  · rfl
  · split
    · rename_i below' hg
      rw [hg] at h
      simp only [List.map_cons, h]
    · rename_i tmp below' hg
      rw [hg] at h
      simp only [List.map_cons, h]
      rfl

theorem getCoin_strip (base : BaseView T) : ∀ (layers : List (CCoinsViewCache T)) (o : COutPoint),
    (getCoin base layers o).2.map CCoinsViewCache.strip = layers.map CCoinsViewCache.strip
  | [], _ => rfl
  | _ :: below, o => fetchCoin_strip (getCoin_strip base below o)

theorem spendCoin_strip (base : BaseView T) (c : CCoinsViewCache T) (below : List (CCoinsViewCache T)) (o : COutPoint) :
    (spendCoin base c below o).2.map CCoinsViewCache.strip = (c :: below).map CCoinsViewCache.strip := by
  have h := fetchCoin_strip (c := c) (getCoin_strip base below o)
  unfold spendCoin
  split
  · rename_i c' below' hf
    rwa [hf] at h
  · rename_i e c' below' hf
    rw [hf] at h
    exact h

theorem addCoin_rest {coin : Coin} {possible_overwrite : Bool} (h : c.addCoin o coin possible_overwrite = .ok c') :
    c' = { c with cacheCoins := c'.cacheCoins } := by
  unfold CCoinsViewCache.addCoin at h
  split at h
  · cases h
  split at h
  · cases h
    rfl
  split at h
  · cases h
    rfl
  simp only at h
  split at h
  · cases h
  · cases h
    rfl

theorem uncache_strip (c : CCoinsViewCache T) (o : COutPoint) : (c.uncache o).strip = c.strip := by
  unfold CCoinsViewCache.uncache
  split
  · split
    · rfl
    · rfl
  · rfl

theorem getBestBlock_strip (base : BaseView T) : ∀ layers : List (CCoinsViewCache T),
    (getBestBlock base layers).2.map CCoinsViewCache.strip = layers.map CCoinsViewCache.strip
  | [] => rfl
  | c :: below => by
    unfold getBestBlock
    split
    · simp only [List.map_cons, getBestBlock_strip base below]
      rfl
    · rfl

/-! ## Writes to the topmost layer -/

theorem get_foldl_set (spent : Bool) : ∀ (nfs : List Uint256) (m : KMap Uint256 CNullifiersCacheEntry) (nf : Uint256),
    KMap.get (nfs.foldl (fun m nf => KMap.set m nf (some ⟨spent, true⟩)) m) nf =
      if nf ∈ nfs then some ⟨spent, true⟩ else KMap.get m nf
  | [], m, nf => by simp
  | n :: nfs, m, nf => by
    rw [List.foldl_cons, get_foldl_set spent nfs, KMap.get_set]
    by_cases hmem : nf ∈ nfs
    · simp [hmem]
    · by_cases hn : nf = n
      · simp [hn]
      · simp [hmem, hn]

theorem setNullifiers_inv (nfs : List Uint256) (spent : Bool) (h : SaplingInv ops K base (c :: below)) :
    SaplingInv ops K base (c.setNullifiers nfs spent :: below) := by
  refine ⟨fun nf e hget hd => ?_, h.2.1, h.2.2⟩
  simp only [CCoinsViewCache.setNullifiers, get_foldl_set] at hget
  split at hget
  · cases hget
    cases hd
  · exact h.1 nf e hget hd

theorem setAnchor_inv {tree : T} {entered : Bool} (best : Uint256) (hroot : ops.root tree = rt)
    (hK : K tree) (h : SaplingInv ops K base (c :: below)) : SaplingInv ops K base ({ c with
      hashSaplingAnchor := best
      cacheSaplingAnchors := KMap.set c.cacheSaplingAnchors rt (some ⟨entered, tree, true⟩) }
        :: below) := by
  refine ⟨h.1, fun rt' e hget => ?_, h.2.2⟩
  simp only [KMap.get_set] at hget
  split at hget
  · rename_i heq
    cases hget
    exact ⟨⟨heq ▸ hroot, hK⟩, fun hd => by cases hd⟩
  · exact h.2.1 rt' e hget

theorem pushAnchor_inv {tree : T} (hK : K ops.emptyTree) (htree : K tree) (h : SaplingInv ops K base layers) :
    SaplingInv ops K base (pushAnchor ops base layers tree) := by
  have hinv := (getBestAnchor_spec hK base layers).2.inv h
  unfold pushAnchor
  simp only
  split
  · exact hinv
  · split
    · rename_i hl
      rwa [hl] at hinv
    · rename_i c below hl
      rw [hl] at hinv
      exact setAnchor_inv _ rfl htree hinv

variable {layers' : List (CCoinsViewCache T)}

theorem popAnchor_inv (hK : K ops.emptyTree) (h : SaplingInv ops K base layers)
    (hpop : popAnchor ops base layers rt = .ok layers') : SaplingInv ops K base layers' := by
  have hbest := getBestAnchor_spec hK base layers
  have hinv := hbest.2.inv h
  unfold popAnchor at hpop
  simp only at hpop
  split at hpop
  · cases hpop
    exact hinv
  · have hanchor := getSaplingAnchorAt_spec hK base (getBestAnchor ops base layers).2
      (getBestAnchor ops base layers).1
    have hinv' := hanchor.2.inv hinv
    split at hpop
    · cases hpop
    · rename_i t hg
      cases hpop
      rwa [hg] at hinv'
    · rename_i tree c below hg
      cases hpop
      rw [hg] at hinv' hanchor
      obtain ⟨hroot, hKt⟩ := anchorVis_known hK hinv hanchor.1.symm
      exact setAnchor_inv _ hroot hKt hinv'

/-! ## Flushing -/

/-- What an optional nullifier entry shows over `parent`. -/
def shownNull (below : Bool) : Option CNullifiersCacheEntry → Bool
  | some e => e.entered
  | none => below

/-- What an optional anchor entry shows over `below`. -/
def shownAnchor (below : Option T) : Option (CAnchorsSaplingCacheEntry T) → Option T
  | some e => if e.entered then some e.tree else none
  | none => below

theorem mergeNullifier_spec {child : CNullifiersCacheEntry} {p w : Option CNullifiersCacheEntry} {grand : Bool}
    (h : mergeNullifier nf child p = .ok w) (hp : ∀ e, p = some e → e.dirty = false → e.entered = grand)
    (hchild : child.dirty = false → child.entered = shownNull grand p) :
    shownNull grand w = child.entered ∧ ∀ e, w = some e → e.dirty = false → e.entered = grand := by
  unfold mergeNullifier at h
  cases hd : child.dirty with
  | false =>
    simp only [hd] at h
    cases h
    exact ⟨(hchild hd).symm, hp⟩
  | true =>
    simp only [hd] at h
    cases p with
    | none =>
      cases h
      exact ⟨rfl, fun e he hde => by cases he; cases hde⟩
    | some e =>
      simp only [Bool.not_true, Bool.false_eq_true, if_false] at h
      split at h
      · cases h
        exact ⟨rfl, fun e he hde => by cases he; cases hde⟩
      · rename_i heq
        cases h
        have : e.entered = child.entered := by simpa using heq
        exact ⟨this, hp⟩

variable {child : CAnchorsSaplingCacheEntry T}

theorem mergeAnchor_spec (hroots : ∀ t t', K t → K t' → ops.root t = ops.root t' → t = t')
    {p w : Option (CAnchorsSaplingCacheEntry T)} {grand : Option T} (h : mergeAnchor rt child p = .ok w)
    (hp : ∀ e, p = some e → (ops.root e.tree = rt ∧ K e.tree) ∧
      (e.dirty = false → e.entered = true ∧ grand = some e.tree)) (hroot : ops.root child.tree = rt ∧ K child.tree)
    (hchild : child.dirty = false → child.entered = true ∧ shownAnchor grand p = some child.tree) :
    (shownAnchor grand w = if child.entered then some child.tree else none) ∧
      ∀ e, w = some e → (ops.root e.tree = rt ∧ K e.tree) ∧
        (e.dirty = false → e.entered = true ∧ grand = some e.tree) := by
  unfold mergeAnchor at h
  cases hd : child.dirty with
  | false =>
    simp only [hd] at h
    cases h
    obtain ⟨hent, hshown⟩ := hchild hd
    exact ⟨by rw [hent]; exact hshown, hp⟩
  | true =>
    simp only [hd] at h
    cases p with
    | none =>
      cases h
      exact ⟨rfl, fun e he => by cases he; exact ⟨hroot, fun hde => by cases hde⟩⟩
    | some e =>
      obtain ⟨hroote, hke⟩ := (hp e rfl).1
      have htree : e.tree = child.tree := hroots _ _ hke hroot.2 (hroote.trans hroot.1.symm)
      simp only [Bool.not_true, Bool.false_eq_true, if_false] at h
      split at h
      · cases h
        refine ⟨by simp only [shownAnchor, htree], fun e' he' => ?_⟩
        cases he'
        exact ⟨⟨hroote, hke⟩, fun hde => by cases hde⟩
      · rename_i heq
        cases h
        have hent : e.entered = child.entered := by simpa using heq
        exact ⟨by simp only [shownAnchor, htree, hent], hp⟩

theorem batchWrite_inv {p child p' : CCoinsViewCache T} (h : p.batchWrite child = .ok p') :
    KMap.merge mergeAnchor child.cacheSaplingAnchors p.cacheSaplingAnchors = .ok p'.cacheSaplingAnchors ∧
      KMap.merge mergeNullifier child.cacheSaplingNullifiers p.cacheSaplingNullifiers = .ok p'.cacheSaplingNullifiers ∧
      p'.hashSaplingAnchor = child.hashSaplingAnchor := by
  cases hc : KMap.merge mergeCoin child.cacheCoins p.cacheCoins with
  | error e =>
    unfold CCoinsViewCache.batchWrite at h
    rw [hc] at h
    cases h
  | ok coins =>
    obtain ⟨anchors, nullifiers, ha, hn, hp⟩ := batchWrite_ok hc
    rw [hp] at h
    cases h
    exact ⟨ha, hn, rfl⟩

section FlushIntoCache

variable {ops : TreeOps T} {K : T → Prop}
  (hroots : ∀ t t', K t → K t' → ops.root t = ops.root t' → t = t')
  {base : BaseView T} {c p p' : CCoinsViewCache T} {below : List (CCoinsViewCache T)}
  (hinv : SaplingInv ops K base (c :: p :: below)) (hw : p.batchWrite c = .ok p')
include hinv hw

theorem flush_nullifier (nf : Uint256) : nullVis base (p' :: below) nf = nullVis base (c :: p :: below) nf ∧
      ∀ e, KMap.get p'.cacheSaplingNullifiers nf = some e → e.dirty = false → e.entered = nullVis base below nf := by
  have hshow : nullVis base (p' :: below) nf =
      shownNull (nullVis base below nf) (KMap.get p'.cacheSaplingNullifiers nf) := rfl
  rw [hshow]
  cases hget : KMap.get c.cacheSaplingNullifiers nf with
  | none =>
    rw [nullVis_of_get_none hget, KMap.merge_none (batchWrite_inv hw).2.1 hget]
    exact ⟨rfl, hinv.2.2.1 nf⟩
  | some e =>
    rw [nullVis_of_get hget]
    exact mergeNullifier_spec (KMap.merge_some (batchWrite_inv hw).2.1 hget) (hinv.2.2.1 nf) (hinv.1 nf e hget)

include hroots

theorem flush_anchor (rt : Uint256) : anchorVis ops base (p' :: below) rt = anchorVis ops base (c :: p :: below) rt ∧
      ∀ e, KMap.get p'.cacheSaplingAnchors rt = some e → (ops.root e.tree = rt ∧ K e.tree) ∧
        (e.dirty = false → e.entered = true ∧ anchorVis ops base below rt = some e.tree) := by
  have hshow : anchorVis ops base (p' :: below) rt =
      shownAnchor (anchorVis ops base below rt) (KMap.get p'.cacheSaplingAnchors rt) := rfl
  rw [hshow]
  cases hget : KMap.get c.cacheSaplingAnchors rt with
  | none =>
    rw [anchorVis_of_get_none hget, KMap.merge_none (batchWrite_inv hw).1 hget]
    exact ⟨rfl, hinv.2.2.2.1 rt⟩
  | some e =>
    rw [anchorVis_of_get hget]
    obtain ⟨hroot, hclean⟩ := hinv.2.1 rt e hget
    exact mergeAnchor_spec hroots (KMap.merge_some (batchWrite_inv hw).1 hget) (hinv.2.2.2.1 rt) hroot hclean

theorem flush_cache_inv : SaplingInv ops K base (p' :: below) :=
  ⟨fun nf => (flush_nullifier hinv hw nf).2, fun rt => (flush_anchor hroots hinv hw rt).2,
    hinv.2.2.2.2⟩

/-- A flush into a cache keeps the answers exactly when the best anchor survives it. -/
theorem flush_cache_iff : SameAnswers ops base (c :: p :: below) base (p' :: below) ↔
      c.hashSaplingAnchor ≠ UINT256_ZERO ∨ p.hashSaplingAnchor = UINT256_ZERO ∨
        p.hashSaplingAnchor = bestVis ops base below := by
  have hhash := (batchWrite_inv hw).2.2
  have hbest : bestVis ops base (p' :: below) =
      if c.hashSaplingAnchor = UINT256_ZERO then bestVis ops base below
      else c.hashSaplingAnchor := by
    rw [bestVis, hhash]
  constructor
  · intro h
    have hsame := h.best
    rw [hbest] at hsame
    by_cases hc : c.hashSaplingAnchor = UINT256_ZERO
    · simp only [bestVis, if_pos hc] at hsame
      by_cases hp : p.hashSaplingAnchor = UINT256_ZERO
      · exact .inr (.inl hp)
      · rw [if_neg hp] at hsame
        exact .inr (.inr hsame.symm)
    · exact .inl hc
  · intro h
    refine ⟨fun nf => (flush_nullifier hinv hw nf).1, fun rt => (flush_anchor hroots hinv hw rt).1, ?_⟩
    rw [hbest]
    simp only [bestVis]
    by_cases hc : c.hashSaplingAnchor = UINT256_ZERO
    · rw [if_pos hc, if_pos hc]
      rcases h with h | h | h
      · exact absurd hc h
      · rw [if_pos h]
      · split
        · rfl
        · exact h.symm
    · rw [if_neg hc, if_neg hc]

end FlushIntoCache

theorem writeNullifier_spec {child : CNullifiersCacheEntry} {old w : Option Unit}
    (h : writeNullifier nf child old = .ok w) (hchild : child.dirty = false → child.entered = old.isSome) :
    w.isSome = child.entered := by
  unfold writeNullifier at h
  cases hd : child.dirty with
  | false =>
    simp only [hd] at h
    cases h
    exact (hchild hd).symm
  | true =>
    simp only [hd] at h
    cases he : child.entered <;> simp only [he] at h <;> cases h <;> rfl

theorem writeAnchor_spec {old w : Option T} (h : writeAnchor ops rt child old = .ok w) (hne : rt ≠ ops.emptyRoot)
    (hchild : child.dirty = false → child.entered = true ∧ old = some child.tree) :
    w = if child.entered then some child.tree else none := by
  unfold writeAnchor at h
  cases hd : child.dirty with
  | false =>
    simp only [hd] at h
    cases h
    obtain ⟨hent, hold⟩ := hchild hd
    rw [hent, hold]
    rfl
  | true =>
    simp only [hd] at h
    cases he : child.entered <;> simp [he, hne] at h <;> exact h.symm

theorem writeAnchor_known {old w : Option T} (h : writeAnchor ops rt child old = .ok w)
    (hold : ∀ t, old = some t → ops.root t = rt ∧ K t) (hchild : ops.root child.tree = rt ∧ K child.tree) :
    ∀ t, w = some t → ops.root t = rt ∧ K t := by
  unfold writeAnchor at h
  split at h
  · cases h
    exact hold
  split at h
  · cases h
    intro t ht
    cases ht
  split at h
  · cases h
    exact hold
  · cases h
    intro t ht
    cases ht
    exact hchild

theorem baseBatchWrite_inv {child : CCoinsViewCache T} (h : base.batchWrite ops child = .ok base') :
    KMap.merge (writeAnchor ops) child.cacheSaplingAnchors base.saplingAnchors = .ok base'.saplingAnchors ∧
      KMap.merge writeNullifier child.cacheSaplingNullifiers base.saplingNullifiers = .ok base'.saplingNullifiers ∧
      base'.hashSaplingAnchor = if child.hashSaplingAnchor = UINT256_ZERO
        then base.hashSaplingAnchor else some child.hashSaplingAnchor := by
  obtain ⟨coins, anchors, nullifiers, -, ha, hn, hb⟩ := baseBatchWrite_ok ops base child
  rw [hb] at h
  cases h
  exact ⟨ha, hn, rfl⟩

section FlushIntoBase

variable {ops : TreeOps T} {K : T → Prop}
  (hroots : ∀ t t', K t → K t' → ops.root t = ops.root t' → t = t') (hK : K ops.emptyTree)
  {base base' : BaseView T} {c : CCoinsViewCache T}
  (hinv : SaplingInv ops K base [c]) (hw : base.batchWrite ops c = .ok base')
include hinv hw

theorem flush_base_nullifier (nf : Uint256) : nullVis base' [] nf = nullVis base [c] nf := by
  show (KMap.get base'.saplingNullifiers nf).isSome = _
  cases hget : KMap.get c.cacheSaplingNullifiers nf with
  | none =>
    rw [nullVis_of_get_none hget, KMap.merge_none (baseBatchWrite_inv hw).2.1 hget]
    rfl
  | some e =>
    rw [nullVis_of_get hget]
    exact writeNullifier_spec (KMap.merge_some (baseBatchWrite_inv hw).2.1 hget) (hinv.1 nf e hget)

theorem flush_base_anchor {rt : Uint256} (hne : rt ≠ ops.emptyRoot) :
    anchorVis ops base' [] rt = anchorVis ops base [c] rt := by
  have hread : ∀ b : BaseView T, b.getSaplingAnchorAt ops rt = KMap.get b.saplingAnchors rt :=
    fun b => if_neg hne
  show base'.getSaplingAnchorAt ops rt = _
  rw [hread]
  cases hget : KMap.get c.cacheSaplingAnchors rt with
  | none =>
    rw [anchorVis_of_get_none hget, KMap.merge_none (baseBatchWrite_inv hw).1 hget]
    exact (hread base).symm
  | some e =>
    rw [anchorVis_of_get hget]
    refine writeAnchor_spec (KMap.merge_some (baseBatchWrite_inv hw).1 hget) hne fun hd => ?_
    obtain ⟨hent, hvis⟩ := (hinv.2.1 rt e hget).2 hd
    exact ⟨hent, by rw [← hvis]; exact (hread base).symm⟩

omit hinv in
theorem flush_base_best : bestVis ops base' [] = bestVis ops base [c] := by
  show base'.hashSaplingAnchor.getD ops.emptyRoot = _
  rw [(baseBatchWrite_inv hw).2.2, bestVis]
  split <;> rfl

theorem flush_base_inv : SaplingInv ops K base' [] := by
  intro rt
  cases hget : KMap.get c.cacheSaplingAnchors rt with
  | none =>
    rw [KMap.merge_none (baseBatchWrite_inv hw).1 hget]
    exact hinv.2.2 rt
  | some e =>
    exact writeAnchor_known (KMap.merge_some (baseBatchWrite_inv hw).1 hget) (hinv.2.2 rt) (hinv.2.1 rt e hget).1

include hroots hK

theorem flush_base_iff : SameAnswers ops base [c] base' [] ↔ (anchorVis ops base [c] ops.emptyRoot).isSome = true := by
  have hempty : anchorVis ops base' [] ops.emptyRoot = some ops.emptyTree := if_pos rfl
  constructor
  · intro h
    rw [← h.anchor ops.emptyRoot, hempty]
    rfl
  · intro h
    refine ⟨flush_base_nullifier hinv hw, fun rt => ?_, flush_base_best hw⟩
    by_cases hrt : rt = ops.emptyRoot
    · subst hrt
      obtain ⟨t, ht⟩ := Option.isSome_iff_exists.mp h
      obtain ⟨hroot, hKt⟩ := anchorVis_known hK hinv ht
      rw [hempty, ht, hroots t ops.emptyTree hKt hK hroot]
    · exact flush_base_anchor hinv hw hrt

end FlushIntoBase

/-! ## Runs -/

/-- The operations on the topmost layer; `accessCoin` stands for the three calls that only run `FetchCoin`. -/
inductive ViewOp (T : Type) where
  | addCoin (o : COutPoint) (coin : LiveCoin) (possible_overwrite : Bool)
  | spendCoin (o : COutPoint)
  | accessCoin (o : COutPoint)
  | uncache (o : COutPoint)
  | setBestBlock (hashBlock : Uint256)
  | getBestBlock
  | setNullifiers (nullifiers : List Uint256) (spent : Bool)
  | pushAnchor (tree : T)
  | popAnchor (rt : Uint256)
  | getNullifier (nf : Uint256)
  | getSaplingAnchorAt (rt : Uint256)
  | getBestAnchor
  | flush
  | newLayer
  | dropLayer

/-- Applies `f` to the topmost layer, if there is one. -/
def onTop (f : CCoinsViewCache T → CCoinsViewCache T) : List (CCoinsViewCache T) → List (CCoinsViewCache T)
  | [] => []
  | c :: below => f c :: below

/-- One operation. -/
def ViewOp.step (ops : TreeOps T) (s : CacheStack T) : ViewOp T → Except CacheError (CacheStack T)
  | .addCoin o coin possible_overwrite =>
    match s.layers with
    | [] => .ok s
    | c :: below =>
      match c.addCoin o coin.coin possible_overwrite with
      | .error e => .error e
      | .ok c => .ok ⟨s.base, c :: below⟩
  | .spendCoin o =>
    match s.layers with
    | [] => .ok s
    | c :: below => .ok ⟨s.base, (KrovaCoin.spendCoin s.base c below o).2⟩
  | .accessCoin o => .ok ⟨s.base, (KrovaCoin.accessCoin s.base s.layers o).2⟩
  | .uncache o => .ok ⟨s.base, onTop (fun c => c.uncache o) s.layers⟩
  | .setBestBlock h => .ok ⟨s.base, onTop (fun c => c.setBestBlock h) s.layers⟩
  | .getBestBlock => .ok ⟨s.base, (KrovaCoin.getBestBlock s.base s.layers).2⟩
  | .setNullifiers nfs spent => .ok ⟨s.base, onTop (fun c => c.setNullifiers nfs spent) s.layers⟩
  | .pushAnchor tree => .ok ⟨s.base, KrovaCoin.pushAnchor ops s.base s.layers tree⟩
  | .popAnchor rt =>
    match KrovaCoin.popAnchor ops s.base s.layers rt with
    | .error e => .error e
    | .ok layers => .ok ⟨s.base, layers⟩
  | .getNullifier nf => .ok ⟨s.base, (KrovaCoin.getNullifier s.base s.layers nf).2⟩
  | .getSaplingAnchorAt rt => .ok ⟨s.base, (KrovaCoin.getSaplingAnchorAt ops s.base s.layers rt).2⟩
  | .getBestAnchor => .ok ⟨s.base, (KrovaCoin.getBestAnchor ops s.base s.layers).2⟩
  | .flush =>
    match KrovaCoin.flush ops s.base s.layers with
    | .error e => .error e
    | .ok (base, layers) => .ok ⟨base, layers⟩
  | .newLayer => .ok ⟨s.base, .new :: s.layers⟩
  | .dropLayer => .ok ⟨s.base, s.layers.tail⟩

/-- A sequence of operations. -/
def ViewRun (ops : TreeOps T) : CacheStack T → List (ViewOp T) → Except CacheError (CacheStack T)
  | s, [] => .ok s
  | s, op :: rest =>
    match op.step ops s with
    | .error e => .error e
    | .ok s => ViewRun ops s rest

/-- The tree an operation brings in. -/
def ViewOp.tree? : ViewOp T → Option T
  | .pushAnchor tree => some tree
  | _ => none

/-- All trees of a run: the empty one, those of the base and those pushed. -/
def treesOf (ops : TreeOps T) (base : BaseView T) (script : List (ViewOp T)) : List T :=
  ops.emptyTree :: base.saplingAnchors.entries.map (fun e => e.2) ++ script.filterMap ViewOp.tree?

theorem flush_inv (hroots : ∀ t t', K t → K t' → ops.root t = ops.root t' → t = t')
    (hinv : SaplingInv ops K base layers) (h : flush ops base layers = .ok (base', layers')) :
    SaplingInv ops K base' layers' := by
  have hcleared : ∀ (b : BaseView T) (c : CCoinsViewCache T) (below : List (CCoinsViewCache T)),
      SaplingInv ops K b below → SaplingInv ops K b (c.cleared :: below) := by
    intro b c below hb
    refine ⟨fun nf e hget => ?_, fun rt e hget => ?_, hb⟩
    · simp [CCoinsViewCache.cleared] at hget
    · simp [CCoinsViewCache.cleared] at hget
  rcases layers with _ | ⟨c, _ | ⟨p, below⟩⟩
  · cases h
    exact hinv
  · obtain ⟨b, hb, h⟩ := bind_eq_ok.mp h
    cases h
    exact hcleared _ c [] (flush_base_inv hinv hb)
  · obtain ⟨p', hp, h⟩ := bind_eq_ok.mp h
    cases h
    exact hcleared _ c _ (flush_cache_inv hroots hinv hp)

section Run

variable {ops : TreeOps T} {K : T → Prop}
  (hroots : ∀ t t', K t → K t' → ops.root t = ops.root t' → t = t') (hK : K ops.emptyTree)
include hroots hK

/-- **One step keeps the invariant.** -/
theorem step_saplingInv {s s' : CacheStack T} {op : ViewOp T} (htree : ∀ t, op.tree? = some t → K t)
    (hinv : SaplingInv ops K s.base s.layers) (h : op.step ops s = .ok s') : SaplingInv ops K s'.base s'.layers := by
  obtain ⟨base, layers⟩ := s
  cases op with
  | addCoin o coin possible_overwrite =>
    cases layers with
    | nil =>
      cases h
      exact hinv
    | cons c below =>
      simp only [ViewOp.step] at h
      split at h
      · cases h
      · rename_i c' hadd
        cases h
        exact (SaplingRead.of_strip hK base (by rw [addCoin_rest hadd]; rfl)).inv hinv
  | spendCoin o =>
    cases layers with
    | nil =>
      cases h
      exact hinv
    | cons c below =>
      cases h
      exact (SaplingRead.of_strip hK base (spendCoin_strip base c below o)).inv hinv
  | accessCoin o =>
    cases h
    exact (SaplingRead.of_strip hK base (getCoin_strip base layers o)).inv hinv
  | uncache o =>
    cases h
    cases layers with
    | nil => exact hinv
    | cons c below =>
      exact (SaplingRead.of_strip hK base (by simp [onTop, uncache_strip])).inv hinv
  | setBestBlock hash =>
    cases h
    cases layers with
    | nil => exact hinv
    | cons c below => exact (SaplingRead.of_strip hK base (by rfl)).inv hinv
  | getBestBlock =>
    cases h
    exact (SaplingRead.of_strip hK base (getBestBlock_strip base layers)).inv hinv
  | setNullifiers nfs spent =>
    cases h
    cases layers with
    | nil => exact hinv
    | cons c below => exact setNullifiers_inv nfs spent hinv
  | pushAnchor tree =>
    cases h
    exact pushAnchor_inv hK (htree tree rfl) hinv
  | popAnchor rt =>
    simp only [ViewOp.step] at h
    split at h
    · cases h
    · rename_i layers' hpop
      cases h
      exact popAnchor_inv hK hinv hpop
  | getNullifier nf =>
    cases h
    exact (getNullifier_spec hK base layers nf).2.inv hinv
  | getSaplingAnchorAt rt =>
    cases h
    exact (getSaplingAnchorAt_spec hK base layers rt).2.inv hinv
  | getBestAnchor =>
    cases h
    exact (getBestAnchor_spec hK base layers).2.inv hinv
  | flush =>
    simp only [ViewOp.step] at h
    split at h
    · cases h
    · rename_i base' layers' hfl
      cases h
      exact flush_inv hroots hinv hfl
  | newLayer =>
    cases h
    refine ⟨fun nf e hget => ?_, fun rt e hget => ?_, hinv⟩
    · simp [CCoinsViewCache.new] at hget
    · simp [CCoinsViewCache.new] at hget
  | dropLayer =>
    cases h
    cases layers with
    | nil => exact hinv
    | cons c below => exact hinv.2.2

/-- **Every run keeps the invariant.** -/
theorem run_saplingInv : ∀ {script : List (ViewOp T)} {s s' : CacheStack T},
    (∀ op ∈ script, ∀ t, op.tree? = some t → K t) → SaplingInv ops K s.base s.layers →
      ViewRun ops s script = .ok s' → SaplingInv ops K s'.base s'.layers
  | [], s, s', _, hinv, h => by
    cases h
    exact hinv
  | op :: rest, s, s', htrees, hinv, h => by
    unfold ViewRun at h
    split at h
    · cases h
    · rename_i s1 hs1
      have hinv1 := step_saplingInv hroots hK (htrees op List.mem_cons_self) hinv hs1
      exact run_saplingInv (fun op hop => htrees op (List.mem_cons_of_mem _ hop)) hinv1 h

end Run

/-! ## When a flush changes nothing that is visible -/

/-- The stack `base', layers'` answers `GetNullifier`, `GetSaplingAnchorAt` and `GetBestAnchor` for
    every argument as `base, layers` does. -/
def AnswersAlike (ops : TreeOps T) (base : BaseView T) (layers : List (CCoinsViewCache T))
    (base' : BaseView T) (layers' : List (CCoinsViewCache T)) : Prop :=
  (∀ nf, (getNullifier base' layers' nf).1 = (getNullifier base layers nf).1) ∧
  (∀ rt, (getSaplingAnchorAt ops base' layers' rt).1 = (getSaplingAnchorAt ops base layers rt).1) ∧
  (getBestAnchor ops base' layers').1 = (getBestAnchor ops base layers).1

theorem answersAlike_iff : AnswersAlike ops base layers base' layers' ↔ SameAnswers ops base layers base' layers' := by
  have hn := fun b l nf => (@getNullifier_spec T ops (fun _ => True) trivial b l nf).1
  have ha := fun b l rt => (@getSaplingAnchorAt_spec T ops (fun _ => True) trivial b l rt).1
  have hb := fun b l => (@getBestAnchor_spec T ops (fun _ => True) trivial b l).1
  unfold AnswersAlike
  simp only [hn, ha, hb]
  exact ⟨fun h => ⟨h.1, h.2.1, h.2.2⟩, fun h => ⟨h.nullifier, h.anchor, h.best⟩⟩

/-- The layer has asked for its best anchor, or its parent holds none of its own or one that repeats
    what is below; over the database: the layer has not removed the anchor of the empty tree. -/
def FlushCondition (ops : TreeOps T) (base : BaseView T) : List (CCoinsViewCache T) → Prop
  | [] => True
  | [c] => (getSaplingAnchorAt ops base [c] ops.emptyRoot).1.isSome = true
  | c :: p :: below =>
    c.hashSaplingAnchor ≠ UINT256_ZERO ∨ p.hashSaplingAnchor = UINT256_ZERO ∨
      p.hashSaplingAnchor = (getBestAnchor ops base below).1

/-- **When a flush keeps the Sapling answers.** After every run over every database whose trees sit under their own
    roots, if no two different trees of the run have the same root: the parent answers after the flush as the flushed
    layer did before it if and only if the condition holds. -/
theorem flush_sapling_iff {ops : TreeOps T} {base0 base' : BaseView T} {script : List (ViewOp T)} {s : CacheStack T}
    {layers' : List (CCoinsViewCache T)}
    (hroots : ∀ t ∈ treesOf ops base0 script, ∀ t' ∈ treesOf ops base0 script, ops.root t = ops.root t' → t = t')
    (hbase : ∀ rt t, KMap.get base0.saplingAnchors rt = some t → ops.root t = rt)
    (hrun : ViewRun ops ⟨base0, []⟩ script = .ok s) (hne : s.layers ≠ [])
    (hflush : flush ops s.base s.layers = .ok (base', layers')) :
    AnswersAlike ops s.base s.layers base' layers'.tail ↔ FlushCondition ops s.base s.layers := by
  have hroots' : ∀ t t', t ∈ treesOf ops base0 script → t' ∈ treesOf ops base0 script →
      ops.root t = ops.root t' → t = t' := fun t t' ht ht' => hroots t ht t' ht'
  have hK : ops.emptyTree ∈ treesOf ops base0 script := by simp [treesOf]
  have hstart : SaplingInv ops (fun t => t ∈ treesOf ops base0 script) base0 [] := by
    intro rt t hget
    refine ⟨hbase rt t hget, ?_⟩
    have hmem := AList.mem_lookup_iff.mp hget
    simp only [treesOf, List.cons_append, List.mem_cons, List.mem_append, List.mem_map]
    exact .inr (.inl ⟨_, hmem, rfl⟩)
  have hpushed : ∀ op ∈ script, ∀ t, op.tree? = some t → t ∈ treesOf ops base0 script := by
    intro op hop t ht
    simp only [treesOf, List.cons_append, List.mem_cons, List.mem_append, List.mem_filterMap]
    exact .inr (.inr ⟨op, hop, ht⟩)
  have hinv := run_saplingInv hroots' hK hpushed hstart hrun
  rw [answersAlike_iff]
  obtain ⟨base, layers⟩ := s
  match layers with
  | [] => exact absurd rfl hne
  | [c] =>
    cases hb : base.batchWrite ops c with
    | error e =>
      simp only [flush, hb] at hflush
      cases hflush
    | ok b =>
      simp only [flush, hb] at hflush
      cases hflush
      rw [FlushCondition, (getSaplingAnchorAt_spec hK base [c] ops.emptyRoot).1]
      exact flush_base_iff hroots' hK hinv hb
  | c :: p :: below =>
    cases hp : p.batchWrite c with
    | error e =>
      simp only [flush, hp] at hflush
      cases hflush
    | ok p' =>
      simp only [flush, hp] at hflush
      cases hflush
      rw [FlushCondition, (@getBestAnchor_spec T ops (fun _ => True) trivial base' below).1]
      exact flush_cache_iff hroots' hinv hp

/-- Trees that are their own roots; the empty tree has root 1. -/
def wordTree : TreeOps Uint256 := ⟨id, 1⟩

/-- A database without records. -/
def emptyBase : BaseView Uint256 := ⟨∅, UINT256_ZERO, ∅, ∅, none⟩

/-- A layer that has pushed an anchor, under one that was asked for nothing. -/
def unaskedStack : List (CCoinsViewCache Uint256) :=
  [.new, ⟨UINT256_ZERO, ∅, 5, KMap.set ∅ 5 (some ⟨true, 5, true⟩), ∅⟩]

theorem flush_forgets_best_anchor : ViewRun wordTree ⟨emptyBase, []⟩ [.newLayer, .pushAnchor 5, .newLayer] =
        .ok ⟨emptyBase, unaskedStack⟩ ∧
      ∃ base' layers', flush wordTree emptyBase unaskedStack = .ok (base', layers') ∧
        ¬ AnswersAlike wordTree emptyBase unaskedStack base' layers'.tail := by
  refine ⟨rfl, _, _, rfl, ?_⟩
  rintro ⟨-, -, hbest⟩
  revert hbest
  decide

/-- The same stack, after the upper layer was asked for its best anchor. -/
def askedStack : List (CCoinsViewCache Uint256) :=
  [⟨UINT256_ZERO, ∅, 5, ∅, ∅⟩, ⟨UINT256_ZERO, ∅, 5, KMap.set ∅ 5 (some ⟨true, 5, true⟩), ∅⟩]

theorem flush_sapling_iff_asked : ∃ base' layers', flush wordTree emptyBase askedStack = .ok (base', layers') ∧
      AnswersAlike wordTree emptyBase askedStack base' layers'.tail := by
  have hrun : ViewRun wordTree ⟨emptyBase, []⟩
      [.newLayer, .pushAnchor 5, .newLayer, .getBestAnchor] = .ok ⟨emptyBase, askedStack⟩ := rfl
  refine ⟨_, _, rfl, (flush_sapling_iff ?_ ?_ hrun (by simp [askedStack]) rfl).mpr ?_⟩
  · intro t _ t' _ heq
    exact heq
  · intro rt t hget
    simp [emptyBase] at hget
  · exact .inl (by decide)

end KrovaCoin
