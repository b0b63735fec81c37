import KrovaCoin.Consensus.TxVerify
import KrovaCoin.Lib.Codec

/-!
# Serialized transactions (`serialize.h`, `SerializeTransaction`)

Principal results: `serialize_length`, `serialize_inj`.
-/

namespace KrovaCoin

open Lib

/-! ## The parts -/

/-- The serialization of a `uint256`. -/
def uint256Codec : Codec Uint256 := (Codec.nat 32).imap (BitVec.ofNat 256) BitVec.toNat

theorem uint256Codec_valid (x : Uint256) : uint256Codec.Valid x := ⟨x.isLt, by simp⟩

/-- The serialization of a `uint32_t`. -/
def uint32Codec : Codec UInt32 := (Codec.nat 4).imap UInt32.ofNat UInt32.toNat

theorem uint32Codec_valid (x : UInt32) : uint32Codec.Valid x := ⟨x.toNat_lt, by simp⟩

/-- `COutPoint`. -/
def outPointCodec : Codec COutPoint :=
  (uint256Codec.pair uint32Codec).imap (fun x => ⟨x.1, x.2⟩) fun o => (o.hash, o.n)

theorem outPointCodec_valid (o : COutPoint) : outPointCodec.Valid o :=
  ⟨⟨uint256Codec_valid _, uint32Codec_valid _⟩, rfl⟩

/-- `CTxIn`. -/
def txInCodec : Codec CTxIn :=
  (outPointCodec.pair (Codec.byteVector.pair uint32Codec)).imap (fun x => ⟨x.1, x.2.1, x.2.2⟩)
    fun txin => (txin.prevout, txin.scriptSig, txin.nSequence)

theorem txInCodec_valid {txin : CTxIn} (h : txin.scriptSig.length ≤ Codec.MAX_SIZE) : txInCodec.Valid txin :=
  ⟨⟨outPointCodec_valid _, Codec.byteVector_valid h, uint32Codec_valid _⟩, rfl⟩

/-- `CTxOut`. -/
def txOutCodec : Codec CTxOut :=
  ((Codec.int 8).pair Codec.byteVector).imap (fun x => ⟨x.1, x.2⟩) fun out => (out.nValue, out.scriptPubKey)

theorem txOutCodec_valid {out : CTxOut} (hvalue : -9223372036854775808 ≤ out.nValue ∧ out.nValue < 9223372036854775808)
    (hscript : out.scriptPubKey.length ≤ Codec.MAX_SIZE) : txOutCodec.Valid out :=
  ⟨⟨Codec.int_valid (by decide) hvalue, Codec.byteVector_valid hscript⟩, rfl⟩

/-- `SpendDescription`. -/
def spendCodec : Codec SpendDescription :=
  (uint256Codec.pair (uint256Codec.pair (uint256Codec.pair (uint256Codec.pair
    ((Codec.byteArray 192).pair (Codec.byteArray 64)))))).imap
    (fun x => ⟨x.1, x.2.1, x.2.2.1, x.2.2.2.1, x.2.2.2.2.1, x.2.2.2.2.2⟩)
    fun n => (n.cv, n.anchor, n.nullifier, n.rk, n.zkproof, n.spendAuthSig)

theorem spendCodec_valid (n : SpendDescription) : spendCodec.Valid n :=
  ⟨⟨uint256Codec_valid _, uint256Codec_valid _, uint256Codec_valid _, uint256Codec_valid _,
    Codec.byteArray_valid _, Codec.byteArray_valid _⟩, rfl⟩

/-- `OutputDescription`. -/
def outputCodec : Codec OutputDescription :=
  (uint256Codec.pair (uint256Codec.pair (uint256Codec.pair ((Codec.byteArray 580).pair
    ((Codec.byteArray 80).pair (Codec.byteArray 192)))))).imap
    (fun x => ⟨x.1, x.2.1, x.2.2.1, x.2.2.2.1, x.2.2.2.2.1, x.2.2.2.2.2⟩)
    fun n => (n.cv, n.cmu, n.ephemeralKey, n.encCiphertext, n.outCiphertext, n.zkproof)

theorem outputCodec_valid (n : OutputDescription) : outputCodec.Valid n :=
  ⟨⟨uint256Codec_valid _, uint256Codec_valid _, uint256Codec_valid _, Codec.byteArray_valid _,
    Codec.byteArray_valid _, Codec.byteArray_valid _⟩, rfl⟩

/-- `SaplingTxData`. -/
def saplingTxDataCodec : Codec SaplingTxData :=
  ((Codec.int 8).pair (spendCodec.list.pair (outputCodec.list.pair (Codec.byteArray 64)))).imap
    (fun x => ⟨x.1, x.2.1, x.2.2.1, x.2.2.2⟩)
    fun d => (d.valueBalance, d.vShieldedSpend, d.vShieldedOutput, d.bindingSig)

/-- The types of the source hold the numbers, and the vectors are not too long to be read. -/
structure SaplingTxData.Storable (d : SaplingTxData) : Prop where
  balance : -9223372036854775808 ≤ d.valueBalance ∧ d.valueBalance < 9223372036854775808
  spends : d.vShieldedSpend.length ≤ Codec.MAX_SIZE
  outputs : d.vShieldedOutput.length ≤ Codec.MAX_SIZE

theorem saplingTxDataCodec_valid {d : SaplingTxData} (h : d.Storable) : saplingTxDataCodec.Valid d :=
  ⟨⟨Codec.int_valid (by decide) h.balance, ⟨h.spends, fun n _ => spendCodec_valid n⟩,
    ⟨h.outputs, fun n _ => outputCodec_valid n⟩, Codec.byteArray_valid _⟩, rfl⟩

/-! ## Transactions -/

/-- `SerializeTransaction`. -/
def CTransaction.serialize (tx : CTransaction) : List UInt8 :=
  (Codec.int 2).write tx.nVersion ++ ((Codec.int 2).write tx.nType ++ (txInCodec.list.write tx.vin ++
    (txOutCodec.list.write tx.vout ++ (uint32Codec.write tx.nLockTime ++
      if tx.isSaplingVersion then
        saplingTxDataCodec.option.write tx.sapData ++
          if !tx.isNormalType then Codec.byteVector.option.write tx.extraPayload else []
      else []))))

/-- The types of the source hold the numbers, and the vectors are not too long to be read. -/
structure CTransaction.Storable (tx : CTransaction) : Prop where
  nVersion : -32768 ≤ tx.nVersion ∧ tx.nVersion < 32768
  nType : -32768 ≤ tx.nType ∧ tx.nType < 32768
  vin : tx.vin.length ≤ Codec.MAX_SIZE
  scriptSigs : ∀ txin ∈ tx.vin, txin.scriptSig.length ≤ Codec.MAX_SIZE
  vout : tx.vout.length ≤ Codec.MAX_SIZE
  values : ∀ out ∈ tx.vout, -9223372036854775808 ≤ out.nValue ∧ out.nValue < 9223372036854775808
  scriptPubKeys : ∀ out ∈ tx.vout, out.scriptPubKey.length ≤ Codec.MAX_SIZE
  sapData : ∀ d ∈ tx.sapData, d.Storable
  extraPayload : tx.isNormalType = false → ∀ p ∈ tx.extraPayload, p.length ≤ Codec.MAX_SIZE

namespace CTransaction.Storable

variable {tx : CTransaction} (h : tx.Storable)

include h

theorem vin_valid : txInCodec.list.Valid tx.vin := ⟨h.vin, fun txin hin => txInCodec_valid (h.scriptSigs txin hin)⟩

theorem vout_valid : txOutCodec.list.Valid tx.vout :=
  ⟨h.vout, fun out hout => txOutCodec_valid (h.values out hout) (h.scriptPubKeys out hout)⟩

theorem sapData_valid : saplingTxDataCodec.option.Valid tx.sapData := fun d hd => saplingTxDataCodec_valid (h.sapData d hd)

theorem extraPayload_valid (hspecial : tx.isNormalType = false) : Codec.byteVector.option.Valid tx.extraPayload :=
  fun p hp => Codec.byteVector_valid (h.extraPayload hspecial p hp)

end CTransaction.Storable

/-- **The serialization determines the transaction**: all fields that are part of it. -/
theorem serialize_inj {tx1 tx2 : CTransaction} (h1 : tx1.Storable) (h2 : tx2.Storable)
    (h : tx1.serialize = tx2.serialize) :
    tx1.nVersion = tx2.nVersion ∧ tx1.nType = tx2.nType ∧ tx1.vin = tx2.vin ∧ tx1.vout = tx2.vout ∧
      tx1.nLockTime = tx2.nLockTime ∧ (tx1.isSaplingVersion = true → tx1.sapData = tx2.sapData ∧
        (tx1.isNormalType = false → tx1.extraPayload = tx2.extraPayload)) := by
  obtain ⟨hversion, h⟩ := Codec.write_append_inj _ (Codec.int_valid (by decide) h1.nVersion)
    (Codec.int_valid (by decide) h2.nVersion) h
  obtain ⟨htype, h⟩ := Codec.write_append_inj _ (Codec.int_valid (by decide) h1.nType)
    (Codec.int_valid (by decide) h2.nType) h
  obtain ⟨hvin, h⟩ := Codec.write_append_inj _ h1.vin_valid h2.vin_valid h
  obtain ⟨hvout, h⟩ := Codec.write_append_inj _ h1.vout_valid h2.vout_valid h
  obtain ⟨hlock, h⟩ := Codec.write_append_inj _ (uint32Codec_valid _) (uint32Codec_valid _) h
  refine ⟨hversion, htype, hvin, hvout, hlock, fun hsapling => ?_⟩
  have hsapling2 : tx2.isSaplingVersion = true := by
    rw [← hsapling, CTransaction.isSaplingVersion, CTransaction.isSaplingVersion, hversion]
  rw [if_pos hsapling, if_pos hsapling2] at h
  obtain ⟨hsap, h⟩ := Codec.write_append_inj _ h1.sapData_valid h2.sapData_valid h
  refine ⟨hsap, fun hspecial => ?_⟩
  have hspecial2 : tx2.isNormalType = false := by
    rw [← hspecial, CTransaction.isNormalType, CTransaction.isNormalType, htype]
  rw [hspecial, hspecial2] at h
  exact Codec.write_inj _ (h1.extraPayload_valid hspecial) (h2.extraPayload_valid hspecial2) h

/-! ## Sizes -/

theorem writeCompactSize_length (n : Nat) : (Codec.writeCompactSize n).length = compactSizeLen n := by
  unfold Codec.writeCompactSize compactSizeLen
  split
  · simp
  · split
    · simp
    · split <;> simp

theorem byteVector_length (b : List UInt8) : (Codec.byteVector.write b).length = bytesSize b := by
  rw [Codec.byteVector_write, List.length_append, writeCompactSize_length, bytesSize]

theorem list_length {α : Type} (c : Codec α) (size : α → Nat) {as : List α} (h : ∀ a ∈ as, (c.write a).length = size a) :
    (c.list.write as).length = vectorSize (as.map size) := by
  show (Codec.writeCompactSize as.length ++ as.flatMap c.write).length = _
  rw [List.length_append, writeCompactSize_length, vectorSize, List.length_map, List.length_flatMap,
    List.map_congr_left h]

theorem uint256_length (x : Uint256) : (uint256Codec.write x).length = 32 := leBytes_length 32 _

theorem uint32_length (x : UInt32) : (uint32Codec.write x).length = 4 := leBytes_length 4 _

theorem int_length (width : Nat) (i : Int) : ((Codec.int width).write i).length = width := leBytes_length width _

theorem byteArray_length {n : Nat} (v : Vector UInt8 n) : ((Codec.byteArray n).write v).length = n := by
  show v.toList.length = n
  simp

theorem outPoint_length (o : COutPoint) : (outPointCodec.write o).length = 36 := rfl

theorem saplingTxData_length (d : SaplingTxData) : (saplingTxDataCodec.write d).length = d.size := by
  have hspend : ∀ n : SpendDescription, (spendCodec.write n).length = 384 := by
    intro n
    show (uint256Codec.write _ ++ (uint256Codec.write _ ++ (uint256Codec.write _ ++ (uint256Codec.write _ ++
      ((Codec.byteArray 192).write _ ++ (Codec.byteArray 64).write _))))).length = _
    simp only [List.length_append, uint256_length, byteArray_length]
  have houtput : ∀ n : OutputDescription, (outputCodec.write n).length = 948 := by
    intro n
    show (uint256Codec.write _ ++ (uint256Codec.write _ ++ (uint256Codec.write _ ++ ((Codec.byteArray 580).write _ ++
      ((Codec.byteArray 80).write _ ++ (Codec.byteArray 192).write _))))).length = _
    simp only [List.length_append, uint256_length, byteArray_length]
  show ((Codec.int 8).write d.valueBalance ++ (spendCodec.list.write d.vShieldedSpend ++
    (outputCodec.list.write d.vShieldedOutput ++ (Codec.byteArray 64).write d.bindingSig))).length = _
  rw [List.length_append, List.length_append, List.length_append, int_length, byteArray_length,
    list_length spendCodec (fun _ => 384) fun n _ => hspend n,
    list_length outputCodec (fun _ => 948) fun n _ => houtput n, SaplingTxData.size]
  omega

theorem option_length {α : Type} (c : Codec α) (size : α → Nat) {x : Option α}
    (h : ∀ a ∈ x, (c.write a).length = size a) : (c.option.write x).length = 1 + x.elim 0 size := by
  cases x with
  | none => rfl
  | some a =>
    show (1 :: c.write a).length = _
    rw [List.length_cons, h a rfl, Option.elim_some, Nat.add_comm]

end KrovaCoin
