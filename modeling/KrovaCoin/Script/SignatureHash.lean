import KrovaCoin.Serialize

/-!
# What a signature commits to (`SignatureHash` in `script/interpreter.cpp`)

The message of a signature in a Sapling transaction is a personalised BLAKE2b hash of a byte string that
contains hashes of the inputs, outputs and shielded parts.

Principal results: `signedAlike_of_preimage`, `signature_fixes_transaction_iff`.
-/

namespace KrovaCoin

open Lib

/-- The personalizations of the BLAKE2b hashes. -/
inductive Personalization where
  | PREVOUTS
  | SEQUENCE
  | OUTPUTS
  | SHIELDED_SPENDS
  | SHIELDED_OUTPUTS
  deriving DecidableEq, Repr

/-- `CBLAKE2bWriter`: the hash of a byte string under a personalization. -/
structure Blake2b where
  hash : Personalization → List UInt8 → Uint256

def SIGHASH_NONE : UInt8 := 2

/-! ## The byte strings that are hashed -/

def SpendDescription.signedBytes (n : SpendDescription) : List UInt8 :=
  uint256Codec.write n.cv ++ (uint256Codec.write n.anchor ++ (uint256Codec.write n.nullifier ++
    (uint256Codec.write n.rk ++ (Codec.byteArray 192).write n.zkproof)))

def hashedData (txTo : CTransaction) : Personalization → List UInt8
  | .PREVOUTS => txTo.vin.flatMap fun txin => outPointCodec.write txin.prevout
  | .SEQUENCE => txTo.vin.flatMap fun txin => uint32Codec.write txin.nSequence
  | .OUTPUTS => txTo.vout.flatMap txOutCodec.write
  | .SHIELDED_SPENDS => txTo.shieldedSpends.flatMap SpendDescription.signedBytes
  | .SHIELDED_OUTPUTS => txTo.shieldedOutputs.flatMap outputCodec.write

section Preimage

variable (blake : Blake2b) (txTo : CTransaction)

def getPrevoutHash : Uint256 := blake.hash .PREVOUTS (hashedData txTo .PREVOUTS)

def getSequenceHash : Uint256 := blake.hash .SEQUENCE (hashedData txTo .SEQUENCE)

def getOutputsHash : Uint256 := blake.hash .OUTPUTS (hashedData txTo .OUTPUTS)

def getShieldedSpendsHash : Uint256 := blake.hash .SHIELDED_SPENDS (hashedData txTo .SHIELDED_SPENDS)

def getShieldedOutputsHash : Uint256 := blake.hash .SHIELDED_OUTPUTS (hashedData txTo .SHIELDED_OUTPUTS)

/-- `hashShieldedSpends`, null without spends. -/
def hashShieldedSpends : Uint256 :=
  if txTo.shieldedSpends.isEmpty then UINT256_ZERO else getShieldedSpendsHash blake txTo

/-- `hashShieldedOutputs`, null without outputs. -/
def hashShieldedOutputs : Uint256 :=
  if txTo.shieldedOutputs.isEmpty then UINT256_ZERO else getShieldedOutputsHash blake txTo

/-- `hasSapData`: there is a shielded spend or output. -/
def hasSapData : Bool := !txTo.shieldedSpends.isEmpty || !txTo.shieldedOutputs.isEmpty

def shieldedSection : List UInt8 :=
  if hasSapData txTo then
    uint256Codec.write (hashShieldedSpends blake txTo) ++ (uint256Codec.write (hashShieldedOutputs blake txTo) ++
      (Codec.int 8).write txTo.valueBalance)
  else []

/-- The input that is signed, with the script and the amount of the output it spends. -/
def inputSection (scriptCode : CScript) (amount : Int) : Option CTxIn → List UInt8
  | none => []
  | some txin =>
    outPointCodec.write txin.prevout ++ (Codec.byteVector.write scriptCode ++ ((Codec.int 8).write amount ++
      uint32Codec.write txin.nSequence))

/-- The payload of a special transaction. -/
def payloadSection : List UInt8 :=
  if txTo.isSpecialTx then txTo.extraPayload.elim [] Codec.byteVector.write else []

/-- The byte string that `SignatureHash` hashes with `SIGVERSION_SAPLING`. -/
def saplingPreimage (scriptCode : CScript) (nIn : Nat) (nHashType : UInt8) (amount : Int) : List UInt8 :=
  let anyoneCanPay := nHashType &&& SIGHASH_ANYONECANPAY != 0
  let single := nHashType &&& 0x1f == SIGHASH_SINGLE
  let noOutputs := nHashType &&& 0x1f == SIGHASH_NONE
  let hashPrevouts := if !anyoneCanPay then getPrevoutHash blake txTo else UINT256_ZERO
  let hashSequence := if !anyoneCanPay && !single && !noOutputs then getSequenceHash blake txTo else UINT256_ZERO
  let hashOutputs :=
    if !single && !noOutputs then getOutputsHash blake txTo
    else if single then
      match txTo.vout[nIn]? with
      | some out => blake.hash .OUTPUTS (txOutCodec.write out)
      | none => UINT256_ZERO
    else UINT256_ZERO
  (Codec.int 2).write txTo.nVersion ++ ((Codec.int 2).write txTo.nType ++ (uint256Codec.write hashPrevouts ++
    (uint256Codec.write hashSequence ++ (uint256Codec.write hashOutputs ++ (shieldedSection blake txTo ++
      ((if nIn ≠ NOT_AN_INPUT then inputSection scriptCode amount txTo.vin[nIn]? else []) ++
        (payloadSection txTo ++ (uint32Codec.write txTo.nLockTime ++ (Codec.int 4).write nHashType.toNat))))))))

theorem saplingPreimage_all {nIn : Nat} {txin : CTxIn} (hin : txTo.vin[nIn]? = some txin) (hnIn : nIn ≠ NOT_AN_INPUT)
    (scriptCode : CScript) (amount : Int) :
    saplingPreimage blake txTo scriptCode nIn SIGHASH_ALL amount =
      (Codec.int 2).write txTo.nVersion ++ ((Codec.int 2).write txTo.nType ++
        (uint256Codec.write (getPrevoutHash blake txTo) ++ (uint256Codec.write (getSequenceHash blake txTo) ++
          (uint256Codec.write (getOutputsHash blake txTo) ++ (shieldedSection blake txTo ++
            (inputSection scriptCode amount (some txin) ++ (payloadSection txTo ++
              (uint32Codec.write txTo.nLockTime ++ (Codec.int 4).write SIGHASH_ALL.toNat)))))))) := by
  rw [saplingPreimage, hin, if_pos hnIn]
  rfl

end Preimage

/-! ## Blanked transactions -/

def SpendDescription.blank (n : SpendDescription) : SpendDescription := { n with spendAuthSig := .replicate 64 0 }

def SaplingTxData.blank (d : SaplingTxData) : SaplingTxData :=
  { d with vShieldedSpend := d.vShieldedSpend.map SpendDescription.blank, bindingSig := .replicate 64 0 }

/-- A transaction without `scriptSig`s, spend authorisation signatures and binding signature. -/
def CTransaction.blank (tx : CTransaction) : CTransaction :=
  { tx with
    vin := tx.vin.map fun txin => { txin with scriptSig := [] }
    sapData := tx.sapData.map SaplingTxData.blank }

/-- What two transactions have in common that give the same byte string. -/
structure SignedAlike (tx1 tx2 : CTransaction) : Prop where
  nVersion : tx1.nVersion = tx2.nVersion
  nType : tx1.nType = tx2.nType
  prevouts : tx1.vin.map CTxIn.prevout = tx2.vin.map CTxIn.prevout
  sequences : tx1.vin.map CTxIn.nSequence = tx2.vin.map CTxIn.nSequence
  vout : tx1.vout = tx2.vout
  nLockTime : tx1.nLockTime = tx2.nLockTime
  spends : tx1.shieldedSpends.map SpendDescription.blank = tx2.shieldedSpends.map SpendDescription.blank
  outputs : tx1.shieldedOutputs = tx2.shieldedOutputs
  balance : tx1.valueBalance = tx2.valueBalance
  payload : tx1.isSpecialTx = true ∨ tx2.isSpecialTx = true → tx1.extraPayload = tx2.extraPayload

/-- The hashes are as good as ideal on the data of the two transactions: equal hashes come from the same data, and
    no hash is null or the id of the transaction that is spent. -/
structure Blake2b.Ideal (blake : Blake2b) (tx1 tx2 : CTransaction) (txid : Uint256) : Prop where
  injective : ∀ a, blake.hash a (hashedData tx1 a) = blake.hash a (hashedData tx2 a) →
    hashedData tx1 a = hashedData tx2 a
  notNull : ∀ a, blake.hash a (hashedData tx1 a) ≠ UINT256_ZERO ∧ blake.hash a (hashedData tx2 a) ≠ UINT256_ZERO
  notTxid : ∀ a, blake.hash a (hashedData tx1 a) ≠ txid ∧ blake.hash a (hashedData tx2 a) ≠ txid
  txid_ne : txid ≠ UINT256_ZERO

theorem Blake2b.Ideal.symm {blake : Blake2b} {tx1 tx2 : CTransaction} {txid : Uint256}
    (h : blake.Ideal tx1 tx2 txid) : blake.Ideal tx2 tx1 txid :=
  ⟨fun a heq => (h.injective a heq.symm).symm, fun a => (h.notNull a).symm, fun a => (h.notTxid a).symm, h.txid_ne⟩

/-! ## Equal hashes -/

def signedSpendCodec : Codec SpendDescription :=
  (uint256Codec.pair (uint256Codec.pair (uint256Codec.pair (uint256Codec.pair (Codec.byteArray 192))))).imap
    (fun x => ⟨x.1, x.2.1, x.2.2.1, x.2.2.2.1, x.2.2.2.2, .replicate 64 0⟩)
    fun n => (n.cv, n.anchor, n.nullifier, n.rk, n.zkproof)

theorem signedSpendCodec_valid (n : SpendDescription) : signedSpendCodec.Valid n.blank :=
  ⟨⟨uint256Codec_valid _, uint256Codec_valid _, uint256Codec_valid _, uint256Codec_valid _,
    Codec.byteArray_valid _⟩, rfl⟩

theorem ne_nil_of_length {l : List UInt8} {n : Nat} (h : l.length = n + 1) : l ≠ [] := by
  rintro rfl
  cases h

theorem append_ne_nil_of_length {l l' : List UInt8} {n : Nat} (h : l.length = n + 1) : l ++ l' ≠ [] :=
  List.append_ne_nil_of_left_ne_nil (ne_nil_of_length h) l'

section Alike

variable {blake : Blake2b} {tx1 tx2 : CTransaction} {txid : Uint256}

theorem prevouts_of_data (h : hashedData tx1 .PREVOUTS = hashedData tx2 .PREVOUTS) :
    tx1.vin.map CTxIn.prevout = tx2.vin.map CTxIn.prevout := by
  refine outPointCodec.flatMap_write_inj (fun o => ne_nil_of_length (outPoint_length o))
    (fun o _ => outPointCodec_valid o) (fun o _ => outPointCodec_valid o) ?_
  rw [List.flatMap_map, List.flatMap_map]
  exact h

theorem sequences_of_data (h : hashedData tx1 .SEQUENCE = hashedData tx2 .SEQUENCE) :
    tx1.vin.map CTxIn.nSequence = tx2.vin.map CTxIn.nSequence := by
  refine uint32Codec.flatMap_write_inj (fun n => ne_nil_of_length (uint32_length n))
    (fun n _ => uint32Codec_valid n) (fun n _ => uint32Codec_valid n) ?_
  rw [List.flatMap_map, List.flatMap_map]
  exact h

theorem vout_of_data (h1 : tx1.Storable) (h2 : tx2.Storable)
    (h : hashedData tx1 .OUTPUTS = hashedData tx2 .OUTPUTS) : tx1.vout = tx2.vout := by
  exact txOutCodec.flatMap_write_inj (fun _ => append_ne_nil_of_length rfl) h1.vout_valid.2 h2.vout_valid.2 h

theorem spends_of_data (h : hashedData tx1 .SHIELDED_SPENDS = hashedData tx2 .SHIELDED_SPENDS) :
    tx1.shieldedSpends.map SpendDescription.blank = tx2.shieldedSpends.map SpendDescription.blank := by
  have hvalid : ∀ {tx : CTransaction}, ∀ n ∈ tx.shieldedSpends.map SpendDescription.blank, signedSpendCodec.Valid n := by
    intro tx n hn
    obtain ⟨m, -, rfl⟩ := List.mem_map.mp hn
    exact signedSpendCodec_valid m
  refine signedSpendCodec.flatMap_write_inj (fun _ => append_ne_nil_of_length rfl) hvalid hvalid ?_
  rw [List.flatMap_map, List.flatMap_map]
  exact h

theorem outputs_of_data (h : hashedData tx1 .SHIELDED_OUTPUTS = hashedData tx2 .SHIELDED_OUTPUTS) :
    tx1.shieldedOutputs = tx2.shieldedOutputs := by
  exact outputCodec.flatMap_write_inj (fun _ => append_ne_nil_of_length rfl) (fun n _ => outputCodec_valid n) (fun n _ => outputCodec_valid n) h

/-- A list that is hashed only if it is not empty. -/
theorem eq_of_hash {α β : Type} (f : List α → β) {l1 l2 : List α} {x1 x2 zero : Uint256} (hn : x1 ≠ zero ∧ x2 ≠ zero)
    (hdata : x1 = x2 → f l1 = f l2) (h : (if l1.isEmpty then zero else x1) = if l2.isEmpty then zero else x2) :
    f l1 = f l2 := by
  cases h1 : l1.isEmpty <;> cases h2 : l2.isEmpty <;> simp only [h1, h2, Bool.false_eq_true, if_true, if_false] at h
  · exact hdata h
  · exact absurd h hn.1
  · exact absurd h.symm hn.2
  · rw [List.isEmpty_iff.mp h1, List.isEmpty_iff.mp h2]

theorem spends_of_hash (hideal : blake.Ideal tx1 tx2 txid)
    (h : hashShieldedSpends blake tx1 = hashShieldedSpends blake tx2) :
    tx1.shieldedSpends.map SpendDescription.blank = tx2.shieldedSpends.map SpendDescription.blank :=
  eq_of_hash (List.map SpendDescription.blank) (hideal.notNull _) (fun heq => spends_of_data (hideal.injective _ heq)) h

theorem outputs_of_hash (hideal : blake.Ideal tx1 tx2 txid)
    (h : hashShieldedOutputs blake tx1 = hashShieldedOutputs blake tx2) : tx1.shieldedOutputs = tx2.shieldedOutputs :=
  eq_of_hash id (hideal.notNull _) (fun heq => outputs_of_data (hideal.injective _ heq)) h

theorem hashShieldedSpends_ne_txid (hideal : blake.Ideal tx1 tx2 txid) : hashShieldedSpends blake tx1 ≠ txid := by
  unfold hashShieldedSpends
  split
  · exact hideal.txid_ne.symm
  · exact (hideal.notTxid _).1

theorem shieldedSpends_nil_of_not_hasSapData {tx : CTransaction} (h : hasSapData tx = false) :
    tx.shieldedSpends = [] ∧ tx.shieldedOutputs = [] := by
  simpa [hasSapData] using h

theorem shieldedSection_inj {prevout : COutPoint} {r1 r2 : List UInt8} (hideal : blake.Ideal tx1 tx2 prevout.hash)
    (h1 : (Codec.int 8).Valid tx1.valueBalance) (h2 : (Codec.int 8).Valid tx2.valueBalance)
    (hz1 : hasSapData tx1 = false → tx1.valueBalance = 0) (hz2 : hasSapData tx2 = false → tx2.valueBalance = 0)
    (h : shieldedSection blake tx1 ++ (outPointCodec.write prevout ++ r1) =
      shieldedSection blake tx2 ++ (outPointCodec.write prevout ++ r2)) :
    (tx1.shieldedSpends.map SpendDescription.blank = tx2.shieldedSpends.map SpendDescription.blank ∧
      tx1.shieldedOutputs = tx2.shieldedOutputs ∧ tx1.valueBalance = tx2.valueBalance) ∧ r1 = r2 := by
  unfold shieldedSection at h
  cases hs1 : hasSapData tx1 <;> cases hs2 : hasSapData tx2 <;>
    simp only [hs1, hs2, Bool.false_eq_true, if_true, if_false, List.nil_append, List.append_assoc] at h
  · obtain ⟨-, h⟩ := Codec.write_append_inj _ (outPointCodec_valid _) (outPointCodec_valid _) h
    obtain ⟨hspends1, houts1⟩ := shieldedSpends_nil_of_not_hasSapData hs1
    obtain ⟨hspends2, houts2⟩ := shieldedSpends_nil_of_not_hasSapData hs2
    rw [hspends1, hspends2, houts1, houts2, hz1 hs1, hz2 hs2]
    exact ⟨⟨rfl, rfl, rfl⟩, h⟩
  · obtain ⟨heq, -⟩ := Codec.write_append_inj _ (uint256Codec_valid _) (uint256Codec_valid _) h
    exact absurd heq.symm (hashShieldedSpends_ne_txid hideal.symm)
  · obtain ⟨heq, -⟩ := Codec.write_append_inj _ (uint256Codec_valid _) (uint256Codec_valid _) h
    exact absurd heq (hashShieldedSpends_ne_txid hideal)
  · obtain ⟨hspends, h⟩ := Codec.write_append_inj _ (uint256Codec_valid _) (uint256Codec_valid _) h
    obtain ⟨houts, h⟩ := Codec.write_append_inj _ (uint256Codec_valid _) (uint256Codec_valid _) h
    obtain ⟨hbalance, h⟩ := Codec.write_append_inj _ h1 h2 h
    obtain ⟨-, h⟩ := Codec.write_append_inj _ (outPointCodec_valid _) (outPointCodec_valid _) h
    exact ⟨⟨spends_of_hash hideal hspends, outputs_of_hash hideal houts, hbalance⟩, h⟩

theorem exists_payload {tx : CTransaction} (h : tx.isSpecialTx = true) : tx.isNormalType = false ∧
    ∃ p, tx.extraPayload = some p ∧ payloadSection tx = Codec.byteVector.write p := by
  have htype : tx.isNormalType = false := by
    simp only [CTransaction.isSpecialTx, Bool.and_eq_true] at h
    simpa [CTransaction.isNormalType] using h.1.2
  refine ⟨htype, ?_⟩
  cases hp : tx.extraPayload with
  | none => simp [CTransaction.isSpecialTx, CTransaction.hasExtraPayload, hp] at h
  | some p => exact ⟨p, rfl, by rw [payloadSection, if_pos h, hp]; rfl⟩

theorem payloadSection_inj (h1 : tx1.Storable) (h2 : tx2.Storable) {t : List UInt8}
    (h : payloadSection tx1 ++ (uint32Codec.write tx1.nLockTime ++ t) =
      payloadSection tx2 ++ (uint32Codec.write tx2.nLockTime ++ t)) :
    (tx1.isSpecialTx = true ∨ tx2.isSpecialTx = true → tx1.extraPayload = tx2.extraPayload) ∧
      tx1.nLockTime = tx2.nLockTime := by
  have hlen := congrArg List.length h
  simp only [List.length_append, uint32_length] at hlen
  have hpos : ∀ {tx : CTransaction}, tx.isSpecialTx = true → 0 < (payloadSection tx).length := by
    intro tx hspecial
    obtain ⟨-, p, -, hsection⟩ := exists_payload hspecial
    rw [hsection, byteVector_length, bytesSize, compactSizeLen]
    split <;> [skip; split <;> [skip; split]] <;> omega
  have hnone : ∀ {tx : CTransaction}, tx.isSpecialTx = false → payloadSection tx = [] := by
    intro tx hspecial
    rw [payloadSection, hspecial]
    rfl
  cases hs1 : tx1.isSpecialTx <;> cases hs2 : tx2.isSpecialTx
  · rw [hnone hs1, hnone hs2] at h
    exact ⟨fun hor => by simp at hor, (Codec.write_append_inj _ (uint32Codec_valid _) (uint32Codec_valid _) h).1⟩
  · have := hpos hs2
    rw [hnone hs1, List.length_nil] at hlen
    omega
  · have := hpos hs1
    rw [hnone hs2, List.length_nil] at hlen
    omega
  · obtain ⟨htype1, p1, hp1, hsection1⟩ := exists_payload hs1
    obtain ⟨htype2, p2, hp2, hsection2⟩ := exists_payload hs2
    rw [hsection1, hsection2] at h
    obtain ⟨hp, h⟩ := Codec.write_append_inj _ (Codec.byteVector_valid (h1.extraPayload htype1 p1 hp1))
      (Codec.byteVector_valid (h2.extraPayload htype2 p2 hp2)) h
    refine ⟨fun _ => by rw [hp1, hp2, hp], ?_⟩
    exact (Codec.write_append_inj _ (uint32Codec_valid _) (uint32Codec_valid _) h).1

/-- **The byte string determines every signed field.** -/
theorem signedAlike_of_preimage (h1 : tx1.Storable) (h2 : tx2.Storable)
    (hz1 : hasSapData tx1 = false → tx1.valueBalance = 0) (hz2 : hasSapData tx2 = false → tx2.valueBalance = 0)
    {nIn : Nat} (hnIn : nIn ≠ NOT_AN_INPUT) {txin1 txin2 : CTxIn} (hin1 : tx1.vin[nIn]? = some txin1)
    (hin2 : tx2.vin[nIn]? = some txin2) (hideal : blake.Ideal tx1 tx2 txin1.prevout.hash) {scriptCode : CScript}
    {amount : Int} (h : saplingPreimage blake tx1 scriptCode nIn SIGHASH_ALL amount =
      saplingPreimage blake tx2 scriptCode nIn SIGHASH_ALL amount) : SignedAlike tx1 tx2 := by
  rw [saplingPreimage_all blake tx1 hin1 hnIn, saplingPreimage_all blake tx2 hin2 hnIn] at h
  obtain ⟨hversion, h⟩ := Codec.write_append_inj _ (Codec.int_valid (by decide) h1.nVersion)
    (Codec.int_valid (by decide) h2.nVersion) h
  obtain ⟨htype, h⟩ := Codec.write_append_inj _ (Codec.int_valid (by decide) h1.nType)
    (Codec.int_valid (by decide) h2.nType) h
  obtain ⟨hprevouts, h⟩ := Codec.write_append_inj _ (uint256Codec_valid _) (uint256Codec_valid _) h
  obtain ⟨hsequence, h⟩ := Codec.write_append_inj _ (uint256Codec_valid _) (uint256Codec_valid _) h
  obtain ⟨houtputs, h⟩ := Codec.write_append_inj _ (uint256Codec_valid _) (uint256Codec_valid _) h
  have hprevouts := prevouts_of_data (hideal.injective _ hprevouts)
  have hprevout : txin1.prevout = txin2.prevout := by
    have hget := congrArg (fun l : List COutPoint => l[nIn]?) hprevouts
    simpa [hin1, hin2] using hget
  simp only [inputSection, List.append_assoc, ← hprevout] at h
  have hbalance : ∀ {tx : CTransaction}, tx.Storable → (Codec.int 8).Valid tx.valueBalance := by
    intro tx htx
    refine Codec.int_valid (by decide) ?_
    unfold CTransaction.valueBalance
    cases hd : tx.sapData with
    | none => decide
    | some d => exact (htx.sapData d hd).balance
  obtain ⟨⟨hspends, houts, hvalue⟩, h⟩ := shieldedSection_inj hideal (hbalance h1) (hbalance h2) hz1 hz2 h
  obtain ⟨-, h⟩ := Codec.write_append_inj _ (uint32Codec_valid _) (uint32Codec_valid _)
    (List.append_cancel_left (List.append_cancel_left h))
  obtain ⟨hpayload, hlock⟩ := payloadSection_inj h1 h2 h
  exact ⟨hversion, htype, hprevouts, sequences_of_data (hideal.injective _ hsequence),
    vout_of_data h1 h2 (hideal.injective _ houtputs), hlock, hspends, houts, hvalue, hpayload⟩

end Alike

/-! ## Transactions that pass `CheckTransaction` -/

theorem length_le_vectorSize {α : Type} (size : α → Nat) (hpos : ∀ a, 1 ≤ size a) (as : List α) :
    as.length ≤ vectorSize (as.map size) := by
  have hsum := List.length_le_sum_of_one_le (as.map size) fun n hn => by
    obtain ⟨a, -, rfl⟩ := List.mem_map.mp hn
    exact hpos a
  rw [List.length_map] at hsum
  unfold vectorSize
  omega

theorem size_le_vectorSize {α : Type} (size : α → Nat) {a : α} {as : List α} (h : a ∈ as) :
    size a ≤ vectorSize (as.map size) := by
  have hle : size a ≤ (as.map size).sum := List.le_sum_of_mem (List.mem_map_of_mem h)
  unfold vectorSize
  omega

theorem storable_of_checkTransaction {p : Params} {tx : CTransaction} {cold : Bool}
    (hmax : 0 ≤ p.nMaxMoneyOut ∧ p.nMaxMoneyOut < 9223372036854775808) (h : checkTransaction p tx cold = .ok ())
    (hversion : tx.nVersion = TXVERSION_SAPLING) (htype : -32768 ≤ tx.nType ∧ tx.nType < 32768) : tx.Storable := by
  have hchecked := checkTransaction_ok hmax h
  have hsapling : tx.isSaplingVersion = true := by simp [CTransaction.isSaplingVersion, hversion]
  have hsize : tx.getTotalSize ≤ 400000 := by
    simp only [checkTransaction, bind_eq_ok, rejectIf_eq_ok, exists_and_left, exists_const,
      decide_eq_false_iff_not] at h
    obtain ⟨-, -, -, hsize, -⟩ := h
    unfold MAX_TX_SIZE_AFTER_SAPLING MAX_STANDARD_TX_SIZE at hsize
    split at hsize <;> omega
  unfold CTransaction.getTotalSize at hsize
  rw [if_pos hsapling] at hsize
  have hbytes : ∀ b : List UInt8, b.length ≤ bytesSize b := fun b => Nat.le_add_left ..
  refine ⟨by rw [hversion]; decide, htype, ?_, fun txin hin => ?_, ?_, fun out hout => ?_, fun out hout => ?_,
    fun d hd => ⟨?_, ?_, ?_⟩, fun hspecial payload hpayload => ?_⟩
  · have := length_le_vectorSize (fun txin : CTxIn => 40 + bytesSize txin.scriptSig) (fun _ => by omega) tx.vin
    unfold Codec.MAX_SIZE
    omega
  · have := size_le_vectorSize (fun txin : CTxIn => 40 + bytesSize txin.scriptSig) hin
    have := hbytes txin.scriptSig
    unfold Codec.MAX_SIZE
    omega
  · have := length_le_vectorSize (fun out : CTxOut => 8 + bytesSize out.scriptPubKey) (fun _ => by omega) tx.vout
    unfold Codec.MAX_SIZE
    omega
  · have := hchecked.values out hout
    omega
  · have := size_le_vectorSize (fun out : CTxOut => 8 + bytesSize out.scriptPubKey) hout
    have := hbytes out.scriptPubKey
    unfold Codec.MAX_SIZE
    omega
  · by_cases hzero : tx.valueBalance = 0
    · rw [CTransaction.valueBalance, Option.mem_def.mp hd] at hzero
      dsimp only at hzero
      omega
    · have hbalance := (hchecked.sapling (hasSaplingData_of (.inl hzero))).balance
      rw [CTransaction.valueBalance, Option.mem_def.mp hd] at hbalance
      dsimp only at hbalance
      omega
  · have := length_le_vectorSize (fun _ : SpendDescription => 384) (fun _ => by omega) d.vShieldedSpend
    rw [Option.mem_def.mp hd, Option.elim_some, SaplingTxData.size] at hsize
    unfold Codec.MAX_SIZE
    omega
  · have := length_le_vectorSize (fun _ : OutputDescription => 948) (fun _ => by omega) d.vShieldedOutput
    rw [Option.mem_def.mp hd, Option.elim_some, SaplingTxData.size] at hsize
    unfold Codec.MAX_SIZE
    omega
  · have := hbytes payload
    rw [hspecial, Option.mem_def.mp hpayload] at hsize
    simp only [Bool.false_eq_true, if_false, Option.elim_some] at hsize
    unfold Codec.MAX_SIZE
    omega

theorem valueBalance_eq_zero {p : Params} {tx : CTransaction} {cold : Bool} (h : checkTransaction p tx cold = .ok ())
    (hnone : hasSapData tx = false) : tx.valueBalance = 0 := by
  by_contra hne
  obtain ⟨hspends, houts⟩ := shieldedSpends_nil_of_not_hasSapData hnone
  have hdata := hasSaplingData_of (.inl hne)
  simp only [checkTransaction, bind_eq_ok, rejectIf_eq_ok, exists_and_left, exists_const] at h
  obtain ⟨-, -, -, -, nValueOut, hsap, -⟩ := h
  simp only [saplingCheckTransaction, hdata, if_true, bind_eq_ok, rejectIf_eq_ok, exists_and_left, exists_const] at hsap
  cases hd : tx.sapData with
  | none => simp [CTransaction.valueBalance, hd] at hne
  | some d =>
    simp only [CTransaction.valueBalance, CTransaction.shieldedSpends, CTransaction.shieldedOutputs, hd] at hne hspends houts
    simp only [hd, saplingCheckWithoutProof, bind_eq_ok, rejectIf_eq_ok, exists_and_left, exists_const] at hsap
    simp [hspends, houts, hne] at hsap

/-! ## The blanked serialization -/

section Blank

variable {tx1 tx2 : CTransaction}

theorem CTransaction.Storable.blank {tx : CTransaction} (h : tx.Storable) : tx.blank.Storable := by
  refine ⟨h.nVersion, h.nType, ?_, fun txin hin => ?_, h.vout, h.values, h.scriptPubKeys, fun d hd => ?_,
    h.extraPayload⟩
  · simpa [CTransaction.blank] using h.vin
  · obtain ⟨_, -, rfl⟩ := List.mem_map.mp hin
    simp
  · obtain ⟨d', hd', rfl⟩ := Option.map_eq_some_iff.mp hd
    have hstorable := h.sapData d' hd'
    exact ⟨hstorable.balance, by simpa [SaplingTxData.blank] using hstorable.spends, hstorable.outputs⟩

theorem SignedAlike.blank_vin (h : SignedAlike tx1 tx2) : tx1.blank.vin = tx2.blank.vin := by
  have hzip : ∀ vin : List CTxIn, vin.map (fun txin => { txin with scriptSig := [] }) =
      List.zipWith (fun o n => (⟨o, [], n⟩ : CTxIn)) (vin.map CTxIn.prevout) (vin.map CTxIn.nSequence) := by
    intro vin
    rw [List.zipWith_map, List.zipWith_self]
  show tx1.vin.map _ = tx2.vin.map _
  rw [hzip, hzip, h.prevouts, h.sequences]

theorem SignedAlike.blank_sapData (h : SignedAlike tx1 tx2) (hpresent : tx1.sapData.isSome = tx2.sapData.isSome) :
    tx1.blank.sapData = tx2.blank.sapData := by
  obtain ⟨-, -, -, -, -, -, hspends, houts, hbalance, -⟩ := h
  show tx1.sapData.map _ = tx2.sapData.map _
  simp only [CTransaction.shieldedSpends, CTransaction.shieldedOutputs, CTransaction.valueBalance] at hspends houts hbalance
  cases hd1 : tx1.sapData <;> cases hd2 : tx2.sapData <;> simp only [hd1, hd2] at hpresent hspends houts hbalance
  · rfl
  · cases hpresent
  · cases hpresent
  · simp [SaplingTxData.blank, hspends, houts, hbalance]

theorem SignedAlike.extraPayload (h : SignedAlike tx1 tx2) (hsapling : tx1.isSaplingVersion = true)
    (htype : tx1.isNormalType = false) (hpresent : tx1.extraPayload.isSome = tx2.extraPayload.isSome) :
    tx1.extraPayload = tx2.extraPayload := by
  have hpayload := h.payload
  have htype1 : tx1.nType ≠ TXTYPE_NORMAL := by simpa [CTransaction.isNormalType] using htype
  have hsapling2 : tx2.isSaplingVersion = true := by
    rw [← hsapling, CTransaction.isSaplingVersion, CTransaction.isSaplingVersion, h.nVersion]
  simp only [CTransaction.isSpecialTx, hsapling, hsapling2, ← h.nType, bne_iff_ne.mpr htype1, Bool.true_and,
    CTransaction.hasExtraPayload] at hpayload
  cases hp1 : tx1.extraPayload with
  | none =>
    rw [hp1] at hpresent
    exact (Option.isNone_iff_eq_none.mp (by simpa using hpresent.symm)).symm
  | some p1 =>
    obtain ⟨p2, hp2⟩ := Option.isSome_iff_exists.mp (by rw [← hpresent, hp1]; rfl)
    rw [hp1, hp2] at hpayload
    by_cases hempty : p1 = [] ∧ p2 = []
    · rw [hp2, hempty.1, hempty.2]
    · rw [hp2]
      apply hpayload
      rw [not_and_or] at hempty
      simpa using hempty

/-- Transactions that are signed alike have the same blanked serialization if their optional parts agree. -/
theorem SignedAlike.serialize_blank_iff (h : SignedAlike tx1 tx2) (h1 : tx1.Storable) (h2 : tx2.Storable)
    (hsapling : tx1.isSaplingVersion = true) :
    tx1.blank.serialize = tx2.blank.serialize ↔ tx1.sapData.isSome = tx2.sapData.isSome ∧
      (tx1.isNormalType = false → tx1.extraPayload.isSome = tx2.extraPayload.isSome) := by
  have hsapling2 : tx2.isSaplingVersion = true := by
    rw [← hsapling, CTransaction.isSaplingVersion, CTransaction.isSaplingVersion, h.nVersion]
  constructor
  · intro heq
    obtain ⟨-, -, -, -, -, hrest⟩ := serialize_inj h1.blank h2.blank heq
    obtain ⟨hsap, hpayload⟩ := hrest hsapling
    refine ⟨?_, fun htype => congrArg Option.isSome (hpayload htype)⟩
    have hsome := congrArg Option.isSome hsap
    simpa [CTransaction.blank] using hsome
  · rintro ⟨hsap, hpayload⟩
    have htypes : tx2.isNormalType = tx1.isNormalType := by
      rw [CTransaction.isNormalType, CTransaction.isNormalType, h.nType]
    show (Codec.int 2).write tx1.nVersion ++ ((Codec.int 2).write tx1.nType ++ (txInCodec.list.write tx1.blank.vin ++
        (txOutCodec.list.write tx1.vout ++ (uint32Codec.write tx1.nLockTime ++
          if tx1.isSaplingVersion then saplingTxDataCodec.option.write tx1.blank.sapData ++
            if !tx1.isNormalType then Codec.byteVector.option.write tx1.extraPayload else [] else [])))) =
      (Codec.int 2).write tx2.nVersion ++ ((Codec.int 2).write tx2.nType ++ (txInCodec.list.write tx2.blank.vin ++
        (txOutCodec.list.write tx2.vout ++ (uint32Codec.write tx2.nLockTime ++
          if tx2.isSaplingVersion then saplingTxDataCodec.option.write tx2.blank.sapData ++
            if !tx2.isNormalType then Codec.byteVector.option.write tx2.extraPayload else [] else []))))
    rw [h.nVersion, h.nType, h.blank_vin, h.vout, h.nLockTime, hsapling, hsapling2, h.blank_sapData hsap, htypes]
    cases htype : tx1.isNormalType with
    | true => rfl
    | false => rw [h.extraPayload hsapling htype (hpayload htype)]

end Blank

/-- **A signature fixes the transaction up to its optional parts.** Two version-3 transactions that pass
    `CheckTransaction` and give the same byte string for an input have the same serialization, signatures blanked,
    exactly if both or neither have Sapling data and, unless they are of the normal type, both or neither have an extra
    payload. -/
theorem signature_fixes_transaction_iff {p : Params} (hmax : 0 ≤ p.nMaxMoneyOut ∧ p.nMaxMoneyOut < 9223372036854775808)
    {blake : Blake2b} {tx1 tx2 : CTransaction} {cold1 cold2 : Bool} (hchecked1 : checkTransaction p tx1 cold1 = .ok ())
    (hchecked2 : checkTransaction p tx2 cold2 = .ok ()) (hversion1 : tx1.nVersion = TXVERSION_SAPLING)
    (hversion2 : tx2.nVersion = TXVERSION_SAPLING) (htype1 : -32768 ≤ tx1.nType ∧ tx1.nType < 32768)
    (htype2 : -32768 ≤ tx2.nType ∧ tx2.nType < 32768) (nIn : Nat) {txin1 txin2 : CTxIn}
    (hin1 : tx1.vin[nIn]? = some txin1) (hin2 : tx2.vin[nIn]? = some txin2)
    (hideal : blake.Ideal tx1 tx2 txin1.prevout.hash) (scriptCode : CScript) (amount : Int)
    (h : saplingPreimage blake tx1 scriptCode nIn SIGHASH_ALL amount =
      saplingPreimage blake tx2 scriptCode nIn SIGHASH_ALL amount) :
    tx1.blank.serialize = tx2.blank.serialize ↔ tx1.sapData.isSome = tx2.sapData.isSome ∧
      (tx1.nType ≠ TXTYPE_NORMAL → tx1.extraPayload.isSome = tx2.extraPayload.isSome) := by
  have h1 := storable_of_checkTransaction hmax hchecked1 hversion1 htype1
  have h2 := storable_of_checkTransaction hmax hchecked2 hversion2 htype2
  have hnIn : nIn ≠ NOT_AN_INPUT := by
    have hlt := (List.getElem?_eq_some_iff.mp hin1).1
    have hle := h1.vin
    unfold Codec.MAX_SIZE at hle
    unfold NOT_AN_INPUT
    omega
  have halike := signedAlike_of_preimage h1 h2 (valueBalance_eq_zero hchecked1) (valueBalance_eq_zero hchecked2) hnIn
    hin1 hin2 hideal h
  have hsapling : tx1.isSaplingVersion = true := by simp [CTransaction.isSaplingVersion, hversion1]
  rw [halike.serialize_blank_iff h1 h2 hsapling]
  simp [CTransaction.isNormalType]

/-- A version-3 payment with one input. -/
def paymentTx (scriptSig : CScript) (sapData : Option SaplingTxData) : CTransaction :=
  ⟨11, 3, 0, [⟨⟨77, 0⟩, scriptSig, SEQUENCE_FINAL⟩], [⟨900, [OP_1]⟩], 0, sapData, none⟩

/-- A hash that takes its personalization and the bytes as a number. -/
def taggedHash : Blake2b where
  hash a data := BitVec.ofNat 256 (100 + a.ctorIdx + 5 * leValue data)

/-- Two forms of a payment with different `scriptSig`s are the same transaction when blanked. -/
theorem paymentTx_fixed : (paymentTx [OP_1] none).blank.serialize = (paymentTx [OP_1, OP_1] none).blank.serialize := by
  have hideal : taggedHash.Ideal (paymentTx [OP_1] none) (paymentTx [OP_1, OP_1] none) 77 := by
    refine ⟨fun a _ => ?_, fun a => ?_, fun a => ?_, by decide⟩
    · cases a <;> rfl
    · cases a <;> exact ⟨by decide +kernel, by decide +kernel⟩
    · cases a <;> exact ⟨by decide +kernel, by decide +kernel⟩
  have hchecked1 : checkTransaction mainParams (paymentTx [OP_1] none) true = .ok () := by decide +kernel
  have hchecked2 : checkTransaction mainParams (paymentTx [OP_1, OP_1] none) true = .ok () := by decide +kernel
  refine (signature_fixes_transaction_iff (by decide) hchecked1 hchecked2 rfl rfl (by decide) (by decide) 0 rfl rfl hideal
    [OP_1] 1000 rfl).mpr ?_
  exact ⟨rfl, fun _ => rfl⟩

def emptySaplingData : SaplingTxData := ⟨0, [], [], .replicate 64 0⟩

/-- Whether a payment carries empty Sapling data or none does not change what is signed, but its serialization. -/
theorem paymentTx_malleable : checkTransaction mainParams (paymentTx [OP_1] none) true = .ok () ∧
      checkTransaction mainParams (paymentTx [OP_1] (some emptySaplingData)) true = .ok () ∧
      (∀ (blake : Blake2b) (scriptCode : CScript) (amount : Int),
        saplingPreimage blake (paymentTx [OP_1] none) scriptCode 0 SIGHASH_ALL amount =
          saplingPreimage blake (paymentTx [OP_1] (some emptySaplingData)) scriptCode 0 SIGHASH_ALL amount) ∧
      (paymentTx [OP_1] none).blank.serialize ≠ (paymentTx [OP_1] (some emptySaplingData)).blank.serialize := by
  refine ⟨by decide +kernel, by decide +kernel, fun _ _ _ => rfl, fun heq => ?_⟩
  have hlen := congrArg List.length heq
  exact absurd hlen (by decide +kernel)

end KrovaCoin
