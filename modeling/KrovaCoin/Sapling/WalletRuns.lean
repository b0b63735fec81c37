import KrovaCoin.Sapling.NoteWitnesses

/-!
# Wallets that follow a chain through reorganisations

* `Synced.disconnect`, `Synced.addNote` — the remaining events keep the witnesses in step.
* `cacheSize_run` — the counter, in terms of the heights that the tip has had.

Principal results: `note_witnesses_follow`, `wallet_survives_iff`.
-/

namespace KrovaCoin

open Lib IncrementalWitness IncrementalMerkleTree

section Events

variable {params : Params} {p : PedersenHash} {start : WalletStart} {s : WalletState}

/-! ## A disconnected block -/

variable {op : SaplingOutPoint} {block : CBlock} {blocks : List CBlock}

theorem Follows.tail {ws : List SaplingWitness} (h : Follows p start op (block :: blocks) ws) :
    Follows p start op blocks ws.tail := by
  cases ws with
  | nil => simp [Follows]
  | cons w ws => exact h.2

theorem NoteSynced.disconnect {nd : SaplingNoteData} {cacheSize : Int}
    (h : NoteSynced p start (block :: blocks) cacheSize op nd) (hmine : nd.isMyNote = true) (hcache : 1 ≤ cacheSize)
    (htxids : ((block :: blocks).flatMap CBlock.shieldedTxids).Nodup) :
    ∃ nd', decrementNote (start.tipHeight (block :: blocks)) cacheSize nd = .ok nd' ∧
      NoteSynced p start blocks (cacheSize - 1) op nd' := by
  have htip := tipHeight_cons start block blocks
  have hlen := h.length
  have hle := h.height_le
  have hdepth : (nd.witnesses.tail.length : Int) = min (minedDepth op blocks : Int) (cacheSize - 1) := by
    rw [List.length_tail]
    by_cases hmem : op ∈ block.noteCommitments.map Prod.fst
    · rw [minedDepth_of_mem hmem] at hlen
      rw [minedDepth_eq_zero.mpr (not_mem_of_mem_tip htxids (mem_shieldedTxids hmem))]
      omega
    · rw [minedDepth_of_not_mem hmem] at hlen
      split at hlen <;> omega
  have hheights : (!(nd.witnessHeight == -1 || nd.witnessHeight == start.tipHeight (block :: blocks))) = false := by
    rcases h.height with h | ⟨h, -⟩ <;> simp [h]
  have hassert : assertCacheSize cacheSize nd = .ok () := assertCacheSize_ok (by omega)
  have hassert' : assertCacheSize (cacheSize - 1) { nd with
      witnesses := nd.witnesses.tail, witnessHeight := start.tipHeight (block :: blocks) - 1 } = .ok () :=
    assertCacheSize_ok (by dsimp only; omega)
  refine ⟨{ nd with witnesses := nd.witnesses.tail, witnessHeight := start.tipHeight (block :: blocks) - 1 }, ?_,
    .inl (by dsimp only; omega), hdepth, h.follows.tail⟩
  simp only [decrementNote, popWitness, hmine, hle, hassert, hheights, rejectIf, Bool.not_true, Bool.false_eq_true,
    if_false, if_true, ok_bind, pure_bind]
  rw [if_pos (by omega), hassert']
  rfl

theorem Synced.decrement (hs : Synced p start s) (hpos : 1 ≤ s.man.nWitnessCacheSize)
    (hblocks : s.blocks = block :: blocks) :
    ∃ notes, updateNotes (fun _ => true) (decrementNote (start.tipHeight s.blocks) s.man.nWitnessCacheSize)
        s.man.mapSaplingNoteData = .ok notes ∧
      Own (NoteSynced p start blocks (s.man.nWitnessCacheSize - 1)) notes := by
  have hstep : Own (fun op nd => ∃ nd', decrementNote (start.tipHeight s.blocks) s.man.nWitnessCacheSize nd = .ok nd' ∧
      NoteSynced p start blocks (s.man.nWitnessCacheSize - 1) op nd') s.man.mapSaplingNoteData := by
    intro e he hmine
    have hnote := hs.notes e he hmine
    have htxids := hs.txids
    rw [hblocks] at hnote htxids ⊢
    exact hnote.disconnect hmine hpos htxids
  obtain ⟨notes, hrun, -, hnotes⟩ := updateNotes_own (fun _ => true)
    (decrementNote (start.tipHeight s.blocks) s.man.nWitnessCacheSize) (fun nd h => by simp [decrementNote, h]) hstep
  exact ⟨notes, hrun, hnotes⟩

/-- **A disconnected block**: as long as the counter stays positive, `DecrementNoteWitnesses` succeeds and
    keeps the wallet in step. -/
theorem Synced.disconnect (params : Params) (hs : Synced p start s) (hpos : 1 < s.man.nWitnessCacheSize) :
    ∃ s', walletStep params p start s .disconnected = .ok s' ∧
      s'.man.nWitnessCacheSize = s.man.nWitnessCacheSize - 1 ∧ Synced p start s' := by
  obtain ⟨hn0, hn1, hn2, -⟩ := hs.cacheSize
  cases hblocks : s.blocks with
  | nil =>
    rw [hblocks, List.length_nil] at hn2
    omega
  | cons block blocks =>
    obtain ⟨notes, hrun, hnotes⟩ := hs.decrement (by omega) hblocks
    refine ⟨⟨{ s.man with nWitnessCacheSize := s.man.nWitnessCacheSize - 1, mapSaplingNoteData := notes }, blocks⟩,
      ?_, rfl, hs.noCache, ?_, ?_, ?_, hnotes⟩
    · have htail : s.blocks.tail = blocks := by rw [hblocks, List.tail_cons]
      simp only [walletStep, decrementNoteWitnesses, hs.noCache, hrun, htail, ok_bind, ne_eq, not_true_eq_false, if_false,
        decide_eq_false (show ¬ s.man.nWitnessCacheSize - 1 ≤ 0 by omega), rejectIf, Bool.false_eq_true]
      rfl
    · rw [hblocks, List.length_cons] at hn2
      dsimp only
      exact ⟨by omega, by omega, by omega, fun _ => by omega⟩
    · have hroom := hs.room
      rw [hblocks] at hroom
      simp only [WalletStart.leaves, chainCommitments, List.map_append, List.length_append] at hroom ⊢
      omega
    · have htxids := hs.txids
      rw [hblocks, List.flatMap_cons, List.nodup_append'] at htxids
      exact htxids.2.1

/-! ## The other events -/

theorem Synced.addNote (params : Params) (hs : Synced p start s) (ivk nullifier : Option Uint256)
    (hop : op ∉ (chainCommitments s.blocks).map Prod.fst) :
    ∃ s', walletStep params p start s (.addNote op ivk nullifier) = .ok s' ∧ Synced p start s' := by
  refine ⟨_, rfl, hs.noCache, hs.cacheSize, hs.room, hs.txids, fun e he hmine => ?_⟩
  rcases List.mem_append.mp he with he | he
  · exact hs.notes e he hmine
  · rw [List.mem_singleton] at he
    subst he
    refine ⟨.inr ⟨rfl, rfl⟩, ?_, by simp [Follows]⟩
    have hn := hs.cacheSize.1
    rw [minedDepth_eq_zero.mpr hop]
    simp only [List.length_nil]
    omega

theorem synced_created : Synced p start .created := by
  refine ⟨rfl, ⟨by decide, by decide, by decide, fun h => absurd rfl h⟩, ?_, List.nodup_nil, fun e he => by cases he⟩
  simpa [WalletStart.leaves, chainCommitments, WalletState.created] using start.room

/-! ## Reachable wallets -/

/-- The states of a wallet that follows a chain from `start` on while its counter stays positive. -/
inductive WalletReachable (params : Params) (p : PedersenHash) (start : WalletStart) : WalletState → Prop where
  | created : WalletReachable params p start .created
  | step {s s' : WalletState} {e : WalletEvent} : WalletReachable params p start s → EventOk start s.blocks e →
      (e = .disconnected → 0 < s.man.nWitnessCacheSize - 1) → walletStep params p start s e = .ok s' →
      WalletReachable params p start s'

theorem Synced.step (params : Params) (hs : Synced p start s) {e : WalletEvent} (hok : EventOk start s.blocks e)
    (hpos : e = .disconnected → 0 < s.man.nWitnessCacheSize - 1) :
    ∃ s', walletStep params p start s e = .ok s' ∧ Synced p start s' := by
  cases e with
  | addNote op ivk nullifier => exact hs.addNote params ivk nullifier hok
  | connected block =>
    obtain ⟨s', hrun, -, -, hs'⟩ := hs.connect params hok
    exact ⟨s', hrun, hs'⟩
  | disconnected =>
    have hlt := hpos rfl
    obtain ⟨s', hrun, -, hs'⟩ := hs.disconnect params (by omega)
    exact ⟨s', hrun, hs'⟩

theorem WalletReachable.synced (h : WalletReachable params p start s) : Synced p start s := by
  induction h with
  | created => exact synced_created
  | step _ hok hpos hrun ih =>
    obtain ⟨s', hrun', hs'⟩ := ih.step params hok hpos
    rw [hrun] at hrun'
    cases hrun'
    exact hs'

theorem chainCommitments_nodup : ∀ {blocks : List CBlock}, (blocks.flatMap CBlock.shieldedTxids).Nodup →
    ((chainCommitments blocks).map Prod.fst).Nodup
  | [], _ => List.nodup_nil
  | block :: blocks, h => by
    have hdisjoint : ∀ op : SaplingOutPoint, op.hash ∈ block.shieldedTxids →
        op ∉ (chainCommitments blocks).map Prod.fst := fun op hop => not_mem_of_mem_tip h hop
    rw [List.flatMap_cons, List.nodup_append'] at h
    rw [chainCommitments, List.map_append]
    refine (chainCommitments_nodup h.2.1).append (noteCommitments_nodup h.1) fun op hop hop' => ?_
    exact hdisjoint op (mem_shieldedTxids hop') hop

/-- The witness of a note at its place in the chain has the root of the tip, and a path to it. -/
theorem WitnessAt.authenticates {w : SaplingWitness} {before after : List (SaplingOutPoint × Uint256)} {cmu : Uint256}
    {tree : SaplingMerkleTree} (hw : WitnessAt p start blocks op w)
    (hnodup : ((chainCommitments blocks).map Prod.fst).Nodup)
    (hsplit : chainCommitments blocks = before ++ (op, cmu) :: after)
    (htree : Represents p.hash SAPLING_INCREMENTAL_MERKLE_TREE_DEPTH tree (start.leaves blocks)) :
    w.root p.hash SAPLING_INCREMENTAL_MERKLE_TREE_DEPTH = tree.root p.hash SAPLING_INCREMENTAL_MERKLE_TREE_DEPTH ∧
      ∃ path, w.path p.hash SAPLING_INCREMENTAL_MERKLE_TREE_DEPTH = .ok path ∧
        path.Authenticates p.hash SAPLING_INCREMENTAL_MERKLE_TREE_DEPTH cmu (start.commitments.length + before.length)
          (tree.root p.hash SAPLING_INCREMENTAL_MERKLE_TREE_DEPTH) := by
  obtain ⟨before', cmu', after', hsplit', hw⟩ := hw
  obtain ⟨rfl, rfl⟩ : before' = before ∧ cmu' = cmu := by
    rw [hsplit', List.map_append, List.map_cons, List.nodup_append', List.nodup_cons] at hnodup
    obtain ⟨-, ⟨hafter, -⟩, hbefore⟩ := hnodup
    have hin : ∀ {l : List (SaplingOutPoint × Uint256)}, (op, cmu) ∈ l → op ∈ l.map Prod.fst :=
      fun h => List.mem_map_of_mem h
    have hinj := (List.append_cons_inj_of_notMem (fun h => hbefore (hin h) List.mem_cons_self)
      (fun h => hafter (hin h))).mp (hsplit'.symm.trans hsplit)
    exact ⟨hinj.1, congrArg Prod.snd hinj.2.1⟩
  have hroot : w.root p.hash SAPLING_INCREMENTAL_MERKLE_TREE_DEPTH =
      tree.root p.hash SAPLING_INCREMENTAL_MERKLE_TREE_DEPTH := by
    rw [hw.root_eq p.emptyRoots, htree.root p.hash (by decide) p.emptyRoots, WalletStart.leaves, hsplit']
    simp
  obtain ⟨path, r, hpath, hlast, hauth⟩ := hw.path_eq
  rw [List.getLast?_concat] at hlast
  cases hlast
  refine ⟨hroot, path, hpath, ?_⟩
  rw [hroot] at hauth
  simpa using hauth

/-- **The witnesses of the wallet follow the chain.** While the counter stays positive: every own note in the chain has
    a front witness with the root of the tip, whose path leads from the commitment at its position to that root; every
    other own note has no witness; and every event goes through. -/
theorem note_witnesses_follow (h : WalletReachable params p start s) : ∃ tree, start.tipTree p s.blocks = .ok tree ∧
      (∀ e ∈ s.man.mapSaplingNoteData, e.2.isMyNote = true →
        (∀ before cmu after, chainCommitments s.blocks = before ++ (e.1, cmu) :: after →
          ∃ w ws path, e.2.witnesses = w :: ws ∧ w.root p.hash SAPLING_INCREMENTAL_MERKLE_TREE_DEPTH =
              tree.root p.hash SAPLING_INCREMENTAL_MERKLE_TREE_DEPTH ∧
            w.path p.hash SAPLING_INCREMENTAL_MERKLE_TREE_DEPTH = .ok path ∧
            path.Authenticates p.hash SAPLING_INCREMENTAL_MERKLE_TREE_DEPTH cmu
              (start.commitments.length + before.length) (tree.root p.hash SAPLING_INCREMENTAL_MERKLE_TREE_DEPTH)) ∧
        (e.1 ∉ (chainCommitments s.blocks).map Prod.fst → e.2.witnesses = [])) ∧
      ∀ event, EventOk start s.blocks event → (event = .disconnected → 0 < s.man.nWitnessCacheSize - 1) →
        ∃ s', walletStep params p start s event = .ok s' := by
  have hs := h.synced
  obtain ⟨tree, htree, hrep, -⟩ := hs.tipTree_ok
  refine ⟨tree, htree, fun e he hmine => ⟨fun before cmu after hsplit => ?_, fun hout => ?_⟩, fun event hok hpos => ?_⟩
  · have hin : e.1 ∈ (chainCommitments s.blocks).map Prod.fst := by
      rw [hsplit]
      simp
    have hne : e.2.witnesses ≠ [] := by
      rw [Ne, hs.witnesses_eq_nil he hmine, minedDepth_eq_zero]
      exact not_not_intro hin
    obtain ⟨w, ws, hws⟩ := List.exists_cons_of_ne_nil hne
    have hfollows := (hs.notes e he hmine).follows
    rw [hws] at hfollows
    obtain ⟨hroot, path, hpath, hauth⟩ := hfollows.front.authenticates (chainCommitments_nodup hs.txids) hsplit hrep
    exact ⟨w, ws, path, hws, hroot, hpath, hauth⟩
  · exact (hs.witnesses_eq_nil he hmine).mpr (minedDepth_eq_zero.mpr hout)
  · obtain ⟨s', hrun, -⟩ := hs.step params hok hpos
    exact ⟨s', hrun⟩

end Events

/-! ## Runs -/

def WalletEvent.chain (blocks : List CBlock) : WalletEvent → List CBlock
  | .addNote _ _ _ => blocks
  | .connected block => block :: blocks
  | .disconnected => blocks.tail

/-- A sequence of events that agrees with the chain. -/
def EventsOk (start : WalletStart) : List CBlock → List WalletEvent → Prop
  | _, [] => True
  | blocks, event :: events => EventOk start blocks event ∧ EventsOk start (event.chain blocks) events

instance (start : WalletStart) (blocks : List CBlock) : (event : WalletEvent) → Decidable (EventOk start blocks event)
  | .addNote op _ _ => inferInstanceAs (Decidable (op ∉ (chainCommitments blocks).map Prod.fst))
  | .connected block =>
    inferInstanceAs (Decidable ((start.leaves (block :: blocks)).length ≤ 2 ^ SAPLING_INCREMENTAL_MERKLE_TREE_DEPTH ∧
      ((block :: blocks).flatMap CBlock.shieldedTxids).Nodup))
  | .disconnected => inferInstanceAs (Decidable True)

instance decidableEventsOk (start : WalletStart) : (blocks : List CBlock) → (events : List WalletEvent) →
    Decidable (EventsOk start blocks events)
  | _, [] => inferInstanceAs (Decidable True)
  | blocks, event :: events =>
    have := decidableEventsOk start (event.chain blocks) events
    inferInstanceAs (Decidable (EventOk start blocks event ∧ EventsOk start (event.chain blocks) events))

def walletRun (params : Params) (p : PedersenHash) (start : WalletStart) (s : WalletState) (events : List WalletEvent) :
    Except Failure WalletState :=
  events.foldlM (walletStep params p start) s

section Runs

variable {params : Params} {p : PedersenHash} {start : WalletStart} {s s' : WalletState}

theorem walletRun_cons (event : WalletEvent) (events : List WalletEvent) :
    walletRun params p start s (event :: events) =
      walletStep params p start s event >>= fun s' => walletRun params p start s' events :=
  List.foldlM_cons

theorem walletStep_blocks {event : WalletEvent} (h : walletStep params p start s event = .ok s') :
    s'.blocks = event.chain s.blocks := by
  cases event with
  | addNote op ivk nullifier =>
    cases h
    rfl
  | connected block =>
    simp only [walletStep, bind_eq_ok, pure_eq_ok] at h
    obtain ⟨_, _, _, _, rfl⟩ := h
    rfl
  | disconnected =>
    simp only [walletStep, bind_eq_ok, pure_eq_ok] at h
    obtain ⟨_, _, rfl⟩ := h
    rfl

theorem walletRun_blocks : ∀ {events : List WalletEvent} {s : WalletState},
    walletRun params p start s events = .ok s' → s'.blocks = events.foldl WalletEvent.chain s.blocks
  | [], s, h => by
    cases h
    rfl
  | event :: events, s, h => by
    rw [walletRun_cons, bind_eq_ok] at h
    obtain ⟨s1, h1, hrest⟩ := h
    rw [walletRun_blocks hrest, walletStep_blocks h1, List.foldl_cons]

theorem WalletReachable.run : ∀ {events : List WalletEvent} {s : WalletState}, WalletReachable params p start s →
    EventsOk start s.blocks events → .disconnected ∉ events → walletRun params p start s events = .ok s' →
    WalletReachable params p start s'
  | [], s, hs, _, _, hrun => by
    cases hrun
    exact hs
  | event :: events, s, hs, hok, hno, hrun => by
    rw [walletRun_cons, bind_eq_ok] at hrun
    obtain ⟨s1, h1, hrest⟩ := hrun
    rw [List.mem_cons, not_or] at hno
    have hs1 := hs.step hok.1 (fun h => absurd h.symm hno.1) h1
    have hok1 := hok.2
    rw [← walletStep_blocks h1] at hok1
    exact hs1.run hok1 hno.2 hrest

end Runs

/-- A transaction with two shielded outputs. -/
def shieldingTx : CTransaction :=
  let out (cmu : Uint256) : OutputDescription :=
    ⟨0, cmu, 0, Vector.replicate 580 0, Vector.replicate 80 0, Vector.replicate 192 0⟩
  ⟨9, 3, 0, [], [], 0, some ⟨0, [], [out 21, out 22], Vector.replicate 64 0⟩, none⟩

/-- A wallet that is created at height 3, before the first shielded transaction. -/
def sampleStart : WalletStart := ⟨3, [], by decide⟩

theorem note_witnesses_follow_sample : ∃ s nd tree w path,
    WalletReachable mainParams samplePedersen sampleStart s ∧ (⟨9, 0⟩, nd) ∈ s.man.mapSaplingNoteData ∧
      sampleStart.tipTree samplePedersen s.blocks = .ok tree ∧ nd.witnesses.head? = some w ∧
      w.path samplePedersen.hash SAPLING_INCREMENTAL_MERKLE_TREE_DEPTH = .ok path ∧
      path.Authenticates samplePedersen.hash SAPLING_INCREMENTAL_MERKLE_TREE_DEPTH 21 0
        (tree.root samplePedersen.hash SAPLING_INCREMENTAL_MERKLE_TREE_DEPTH) := by
  let events : List WalletEvent :=
    [.connected (sampleBlock []), .addNote ⟨9, 0⟩ (some 1) none, .connected (sampleBlock [shieldingTx])]
  have hevents : EventsOk sampleStart [] events := by decide +kernel
  have hkeys : (walletRun mainParams samplePedersen sampleStart .created events).toOption.map
      (fun s => s.man.mapSaplingNoteData.map fun e => (e.1, e.2.isMyNote)) = some [(⟨9, 0⟩, true)] := by
    decide +kernel
  obtain ⟨s, hs, hnotes⟩ := Option.map_eq_some_iff.mp hkeys
  have hrun : walletRun mainParams samplePedersen sampleStart .created events = .ok s := by
    cases hr : walletRun mainParams samplePedersen sampleStart .created events with
    | error f =>
      rw [hr] at hs
      cases hs
    | ok s' =>
      rw [hr] at hs
      cases hs
      rfl
  have hblocks : s.blocks = [sampleBlock [shieldingTx], sampleBlock []] := walletRun_blocks hrun
  obtain ⟨⟨op, nd⟩, hmem, hnd⟩ := List.mem_map.mp
    (hnotes ▸ List.mem_singleton_self ((⟨9, 0⟩, true) : SaplingOutPoint × Bool))
  obtain ⟨rfl, hmine⟩ := Prod.mk.inj hnd
  have hreach := WalletReachable.created.run hevents (by simp [events]) hrun
  obtain ⟨tree, htree, hall, -⟩ := note_witnesses_follow hreach
  obtain ⟨w, ws, path, hws, -, hpath, hauth⟩ := (hall _ hmem hmine).1 [] 21 [(⟨9, 1⟩, 22)] (by rw [hblocks]; rfl)
  exact ⟨s, nd, tree, w, path, hreach, hmem, htree, by rw [hws]; rfl, hpath, hauth⟩

section Runs

variable {params : Params} {p : PedersenHash} {start : WalletStart} {s s' : WalletState}

/-! ## How far the tip may fall -/

/-- Every disconnected block leaves the tip above the height at which the wallet was created and not more than
    `DEFAULT_MAX_REORG_DEPTH` below the highest tip that the wallet has followed. -/
def WithinCache (created : Int) : Int → Int → List WalletEvent → Prop
  | _, _, [] => True
  | height, highest, .addNote _ _ _ :: events => WithinCache created height highest events
  | height, highest, .connected _ :: events =>
    WithinCache created (height + 1) (max highest (height + 1)) events
  | height, highest, .disconnected :: events =>
    (created < height - 1 ∧ highest - DEFAULT_MAX_REORG_DEPTH ≤ height - 1) ∧
      WithinCache created (height - 1) highest events

/-- The counter, from the heights of the tip and of the highest tip. -/
structure CounterAt (start : WalletStart) (s : WalletState) (highest : Int) : Prop where
  le : start.tipHeight s.blocks ≤ highest
  eq : s.man.nWitnessCacheSize =
    min (s.blocks.length : Int) (WITNESS_CACHE_SIZE - (highest - start.tipHeight s.blocks))

theorem decrementNote_ne_error {height cacheSize : Int} {nd : SaplingNoteData} {f : Failure} (hf : f ≠ .assertion) :
    decrementNote height cacheSize nd ≠ .error f := by
  have hreject : ∀ b, rejectIf b Failure.assertion ≠ .error f := fun b => rejectIf_ne_error hf.symm
  unfold decrementNote popWitness assertCacheSize
  split
  · exact fun h => by cases h
  · apply bind_ne_error
    · split
      · apply bind_ne_error (hreject _)
        intro _ _
        apply bind_ne_error (hreject _)
        exact fun _ _ h => by cases h
      · exact fun h => by cases h
    · intro nd' _
      split
      · apply bind_ne_error (hreject _)
        exact fun _ _ h => by cases h
      · exact fun h => by cases h

/-- Without a cached witness to go back to the node stops, whatever the notes are. -/
theorem disconnect_fails (hnet : params.strNetworkID ≠ .regtest) (hnone : s.man.rollbackTargetHeight = -1)
    (hn : s.man.nWitnessCacheSize ≤ 1) : walletStep params p start s .disconnected = .error .assertion := by
  have hdec : decrementNoteWitnesses params s.man (start.tipHeight s.blocks) = .error .assertion := by
    simp only [decrementNoteWitnesses, hnone, hnet, ne_eq, not_true_eq_false, if_false,
      decide_eq_true (show s.man.nWitnessCacheSize - 1 ≤ 0 by omega), rejectIf, if_true]
    cases hrun : updateNotes (fun _ => true) (decrementNote (start.tipHeight s.blocks) s.man.nWitnessCacheSize)
        s.man.mapSaplingNoteData with
    | ok notes => rfl
    | error f =>
      have hf : f = .assertion := by
        by_contra hne
        refine mapM_ne_error (fun e _ => ?_) hrun
        cases hstep : decrementNote (start.tipHeight s.blocks) s.man.nWitnessCacheSize e.2 with
        | ok nd => exact fun h => by cases h
        | error f' =>
          intro h
          cases h
          exact decrementNote_ne_error hne hstep
      rw [hf]
      rfl
  rw [walletStep, hdec]
  rfl

variable {highest : Int}

theorem CounterAt.connect {block : CBlock} (hc : CounterAt start s highest) (hblocks : s'.blocks = block :: s.blocks)
    (hn : s'.man.nWitnessCacheSize = nextCacheSize s.man.nWitnessCacheSize) :
    CounterAt start s' (max highest (start.tipHeight s.blocks + 1)) := by
  obtain ⟨hle, heq⟩ := hc
  constructor
  · rw [hblocks, tipHeight_cons]
    omega
  · rw [hn, heq, hblocks, tipHeight_cons, List.length_cons]
    unfold nextCacheSize WITNESS_CACHE_SIZE DEFAULT_MAX_REORG_DEPTH
    split <;> omega

theorem CounterAt.disconnect (hc : CounterAt start s highest) (hblocks : s'.blocks = s.blocks.tail)
    (hne : s.blocks ≠ []) (hn : s'.man.nWitnessCacheSize = s.man.nWitnessCacheSize - 1) :
    CounterAt start s' highest ∧ start.tipHeight s'.blocks = start.tipHeight s.blocks - 1 := by
  obtain ⟨hle, heq⟩ := hc
  obtain ⟨block, blocks, hcons⟩ := List.exists_cons_of_ne_nil hne
  rw [hcons, List.tail_cons] at hblocks
  rw [hcons, tipHeight_cons] at hle heq
  rw [hcons, hblocks, tipHeight_cons]
  rw [List.length_cons] at heq
  refine ⟨⟨by rw [hblocks]; omega, ?_⟩, by omega⟩
  rw [hn, heq, hblocks]
  omega

theorem CounterAt.pos_iff (hc : CounterAt start s highest) :
    1 < s.man.nWitnessCacheSize ↔ (start.height : Int) < start.tipHeight s.blocks - 1 ∧
      highest - DEFAULT_MAX_REORG_DEPTH ≤ start.tipHeight s.blocks - 1 := by
  have heq := hc.eq
  unfold WITNESS_CACHE_SIZE at heq
  simp only [WalletStart.tipHeight] at heq ⊢
  omega

theorem walletRun_ne_assertion_iff (hnet : params.strNetworkID ≠ .regtest) : ∀ {events : List WalletEvent}
    {s : WalletState} {highest : Int}, Synced p start s → CounterAt start s highest →
    EventsOk start s.blocks events →
    (walletRun params p start s events ≠ .error .assertion ↔
      WithinCache start.height (start.tipHeight s.blocks) highest events)
  | [], s, highest, _, _, _ => ⟨fun _ => trivial, fun _ h => by cases h⟩
  | .addNote op ivk nullifier :: events, s, highest, hs, hc, hok => by
    obtain ⟨s', hrun, hs'⟩ := hs.addNote params ivk nullifier hok.1
    rw [walletRun_cons, hrun, ok_bind]
    cases hrun
    exact walletRun_ne_assertion_iff hnet hs' ⟨hc.le, hc.eq⟩ hok.2
  | .connected block :: events, s, highest, hs, hc, hok => by
    obtain ⟨s', hrun, hblocks, hn, hs'⟩ := hs.connect params hok.1
    have hok' := hok.2
    rw [WalletEvent.chain, ← hblocks] at hok'
    rw [walletRun_cons, hrun, ok_bind, walletRun_ne_assertion_iff hnet hs' (hc.connect hblocks hn) hok', hblocks,
      tipHeight_cons]
    rfl
  | .disconnected :: events, s, highest, hs, hc, hok => by
    rw [walletRun_cons, WithinCache, ← hc.pos_iff]
    by_cases hpos : 1 < s.man.nWitnessCacheSize
    · obtain ⟨s', hrun, hn, hs'⟩ := hs.disconnect params hpos
      have hblocks := walletStep_blocks hrun
      have hne : s.blocks ≠ [] := by
        intro hnil
        have hle := hs.cacheSize.2.2.1
        rw [hnil, List.length_nil] at hle
        omega
      obtain ⟨hc', htip⟩ := hc.disconnect hblocks hne hn
      have hok' := hok.2
      rw [← hblocks] at hok'
      rw [hrun, ok_bind, walletRun_ne_assertion_iff hnet hs' hc' hok', htip, and_iff_right hpos]
    · rw [disconnect_fails hnet hs.noCache (by omega)]
      exact ⟨fun h => absurd rfl h, fun h => absurd h.1 hpos⟩

/-- **How far the tip may fall.** A wallet that is created on top of a chain survives a sequence of connected and
    disconnected blocks exactly when every disconnected block leaves the tip above the height of its creation and not
    more than 100 blocks below the highest tip since then. -/
theorem wallet_survives_iff (hnet : params.strNetworkID ≠ .regtest) {events : List WalletEvent}
    (hok : EventsOk start [] events) :
    walletRun params p start .created events ≠ .error .assertion ↔
      WithinCache start.height start.height start.height events := by
  have hcounter : CounterAt start .created start.height := by
    constructor <;> simp [WalletState.created, WalletStart.tipHeight, WITNESS_CACHE_SIZE, DEFAULT_MAX_REORG_DEPTH]
  have hiff := walletRun_ne_assertion_iff (p := p) hnet synced_created hcounter hok
  simpa [WalletState.created, WalletStart.tipHeight] using hiff

end Runs

/-! ## Chain activation -/

/-- What `ActivateBestChainStep` delivers when it moves from one chain to another: the blocks down to the fork are
    disconnected, then those of the new branch are connected. -/
def activationEvents (chainActive pindexMostWork : List CBlock) : List WalletEvent :=
  let pindexFork := findFork chainActive pindexMostWork
  List.replicate (chainActive.length - pindexFork.length) .disconnected ++
    (pindexMostWork.take (pindexMostWork.length - pindexFork.length)).reverse.map .connected

theorem activation_stops_created {params : Params} (hnet : params.strNetworkID ≠ .regtest) (p : PedersenHash)
    (start : WalletStart) {chainActive pindexMostWork : List CBlock}
    (hfork : (findFork chainActive pindexMostWork).length < chainActive.length) :
    walletRun params p start .created (activationEvents chainActive pindexMostWork) = .error .assertion := by
  obtain ⟨n, hn⟩ : ∃ n, chainActive.length - (findFork chainActive pindexMostWork).length = n + 1 :=
    ⟨_, (Nat.sub_add_cancel (by omega)).symm⟩
  simp only [activationEvents]
  rw [hn, List.replicate_succ, List.cons_append, walletRun_cons, disconnect_fails hnet rfl (by decide)]
  rfl

def plainBlock (hash : Uint256) : CBlock := { sampleBlock [] with hash := hash }

/-- A wallet that has followed two blocks survives a reorganisation of one block. -/
theorem wallet_survives_one_block : walletRun mainParams samplePedersen sampleStart .created
        ([.connected (plainBlock 1), .connected (plainBlock 2)] ++
          activationEvents [plainBlock 2, plainBlock 1, plainBlock 0] [plainBlock 4, plainBlock 3, plainBlock 1, plainBlock 0]) ≠
      .error .assertion := by
  have hok : EventsOk sampleStart [] ([.connected (plainBlock 1), .connected (plainBlock 2)] ++
      [.disconnected, .connected (plainBlock 3), .connected (plainBlock 4)]) := by decide +kernel
  refine (wallet_survives_iff (by decide) hok).mpr ?_
  simp [WithinCache, sampleStart, DEFAULT_MAX_REORG_DEPTH]

/-- A wallet that is created on the tip at height 1 does not survive that a longer branch replaces this block. -/
theorem new_wallet_stops :
    (findFork [plainBlock 1, plainBlock 0] [plainBlock 3, plainBlock 2, plainBlock 0]).length = 1 ∧
      walletRun mainParams samplePedersen ⟨1, [], by decide⟩ .created
        (activationEvents [plainBlock 1, plainBlock 0] [plainBlock 3, plainBlock 2, plainBlock 0]) =
          .error .assertion := by
  have hfork : (findFork [plainBlock 1, plainBlock 0] [plainBlock 3, plainBlock 2, plainBlock 0]).length = 1 := by
    decide +kernel
  exact ⟨hfork, activation_stops_created (by decide) _ _ (by rw [hfork]; decide)⟩

end KrovaCoin
