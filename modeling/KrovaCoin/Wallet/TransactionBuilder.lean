import KrovaCoin.Wallet.CreateTransaction

/-!
# The builder of shielded transactions (`sapling/transaction_builder.cpp`)

* `addSaplingSpend`, `addSaplingOutput`, `addTransparentInput`, `addTransparentOutput` — what is added.

Principal result: `build_eq_ok`.
-/

namespace KrovaCoin

open Lib

/-! ## Data -/

structure SaplingPaymentAddress where
  d : Vector UInt8 11
  pk_d : Uint256
  deriving DecidableEq, Repr

/-- A `CAmount` as the `uint64_t` of a note. -/
def noteValue (value : Int) : UInt64 := UInt64.ofNat (value % 18446744073709551616).toNat

theorem noteValue_toNat {value : Int} (hpos : 0 ≤ value) (hmax : value < 18446744073709551616) :
    ((noteValue value).toNat : Int) = value := by
  rw [noteValue, Int.emod_eq_of_lt hpos hmax, UInt64.toNat_ofNat']
  omega

/-- `libzcash::SaplingNote`; its randomness is read by the prover only. -/
structure SaplingNote where
  address : SaplingPaymentAddress
  value : UInt64
  deriving DecidableEq, Repr

/-- `SpendDescriptionInfo`: the note with the outgoing viewing key of its spending key. What only the prover reads (the
    keys, the randomness and the witness) is left out. -/
structure SpendDescriptionInfo where
  ovk : Uint256
  note : SaplingNote
  anchor : Uint256
  deriving DecidableEq, Repr

structure OutputDescriptionInfo where
  ovk : Uint256
  note : SaplingNote
  memo : List UInt8
  deriving DecidableEq, Repr

structure TransparentInputInfo where
  scriptPubKey : CScript
  value : Int
  deriving DecidableEq, Repr

/-- Why an operation does not succeed: an error it returns, an exception, or a fault. -/
inductive OperationError where
  | errorOut (error : String)
  | throws (what : String)
  | fault (f : Fault)
  deriving DecidableEq, Repr

def operating {α : Type} (x : Checked α) : Except OperationError α := x.mapError .fault

theorem operating_eq_ok {α : Type} {x : Checked α} {a : α} : operating x = .ok a ↔ x = .ok a := by
  cases x with
  | error e => simp [operating, Except.mapError]
  | ok a => simp [operating, Except.mapError]

/-- The keystore, the prover, and the fee rate of dust. -/
structure BuilderEnv where
  dustRelayFee : Int
  /-- `ProduceSignature` with the `DummySignatureCreator`. -/
  dummySignature : CScript → Option CScript
  /-- `ProduceSignature` for an input of a transaction. -/
  produceSignature : CTransaction → Nat → TransparentInputInfo → Option CScript
  /-- Whether `SaplingNote::cmu` succeeds. -/
  hasCommitment : SaplingNote → Bool
  /-- `OutputDescriptionInfo::Build`. -/
  outputDescription : OutputDescriptionInfo → Option OutputDescription
  /-- Whether the note has a commitment and a nullifier. -/
  spendValid : SpendDescriptionInfo → Bool
  /-- `librustzcash_sapling_spend_proof`. -/
  spendProof : SpendDescriptionInfo → Option SpendDescription
  /-- `SignatureHash`, which may throw. -/
  signatureHash : CTransaction → Except String Uint256
  /-- `librustzcash_sapling_spend_sig` and `librustzcash_sapling_binding_sig`. -/
  spendSig : SpendDescriptionInfo → Uint256 → Vector UInt8 64
  bindingSig : Int → Uint256 → Vector UInt8 64

/-- `TransactionBuilder`, with the parts of `mtx` that change; `tChangeAddr` is the script of the address. -/
structure TransactionBuilder where
  vin : List COutPoint
  vout : List CTxOut
  valueBalance : Int
  fee : Int
  spends : List SpendDescriptionInfo
  outputs : List OutputDescriptionInfo
  tIns : List TransparentInputInfo
  saplingChangeAddr : Option (Uint256 × SaplingPaymentAddress)
  tChangeAddr : Option CScript

namespace TransactionBuilder

def clear : TransactionBuilder := ⟨[], [], 0, -1, [], [], [], none, none⟩

/-! ## What is added -/

/-- `AddSaplingSpend`; the value is added as one of `uint64_t`. -/
def addSaplingSpend (b : TransactionBuilder) (spend : SpendDescriptionInfo) : Except OperationError TransactionBuilder := do
  rejectIf (b.spends.head?.any fun first => first.anchor != spend.anchor)
    (.throws "Anchor does not match previously-added Sapling spends.")
  return { b with
    spends := b.spends ++ [spend]
    valueBalance := toInt64 (b.valueBalance + spend.note.value.toNat) }

/-- `AddSaplingOutput`; the note has the value as a `uint64_t`. -/
def addSaplingOutput (b : TransactionBuilder) (ovk : Uint256) (address : SaplingPaymentAddress)
    (value : Int) (memo : List UInt8) : Except OperationError TransactionBuilder := do
  let valueBalance ← operating (checkInt64 (b.valueBalance - value))
  return { b with
    outputs := b.outputs ++ [⟨ovk, ⟨address, noteValue value⟩, memo⟩]
    valueBalance := valueBalance }

def addTransparentInput (b : TransactionBuilder) (utxo : COutPoint) (scriptPubKey : CScript) (value : Int) :
    TransactionBuilder :=
  { b with vin := b.vin ++ [utxo], tIns := b.tIns ++ [⟨scriptPubKey, value⟩] }

def addTransparentOutput (b : TransactionBuilder) (out : CTxOut) : Except OperationError TransactionBuilder := do
  rejectIf (solver out.scriptPubKey).isNone (.throws "Transaction builder: invalid script for transparent output")
  return { b with vout := b.vout ++ [out] }

/-! ## The transaction -/

/-- `{{0xff}}`: the first byte of an array is given, the others are zero. -/
def dummyBytes (n : Nat) : Vector UInt8 n := Vector.ofFn fun i => if i.val = 0 then 0xff else 0

def UINT256_MAX : Uint256 := BitVec.allOnes 256

def DUMMY_SHIELD_OUT : OutputDescription :=
  ⟨UINT256_MAX, UINT256_MAX, UINT256_MAX, dummyBytes 580, dummyBytes 80, dummyBytes 192⟩

def DUMMY_SHIELD_SPEND : SpendDescription :=
  ⟨UINT256_MAX, UINT256_MAX, UINT256_MAX, UINT256_MAX, dummyBytes 192, dummyBytes 64⟩

/-- Whether there is anything shielded. -/
def hasShielded (b : TransactionBuilder) : Bool := !b.spends.isEmpty || !b.outputs.isEmpty

/-- `mtx` with these signatures and proofs; it has no hash yet. -/
def mtx (b : TransactionBuilder) (scriptSigs : List CScript) (vShieldedSpend : List SpendDescription)
    (vShieldedOutput : List OutputDescription) (bindingSig : Vector UInt8 64) : CTransaction where
  hash := 0
  nVersion := TXVERSION_SAPLING
  nType := 0
  vin := List.zipWith (fun utxo scriptSig => ⟨utxo, scriptSig, SEQUENCE_FINAL⟩) b.vin scriptSigs
  vout := b.vout
  nLockTime := 0
  sapData := some ⟨b.valueBalance, vShieldedSpend, vShieldedOutput, bindingSig⟩
  extraPayload := none

/-- The error of a transparent input that cannot be signed. -/
def signed {α : Type} : Option α → Except OperationError α
  | some a => .ok a
  | none => .error (.errorOut "Failed to sign transaction")

def addDummySignatures (env : BuilderEnv) (b : TransactionBuilder) : Except OperationError CTransaction := do
  let scriptSigs ← signed (b.tIns.mapM fun tIn => env.dummySignature tIn.scriptPubKey)
  return if b.hasShielded then
      b.mtx scriptSigs (b.spends.map fun _ => DUMMY_SHIELD_SPEND) (b.outputs.map fun _ => DUMMY_SHIELD_OUT) (dummyBytes 64)
    else b.mtx scriptSigs [] [] (.replicate 64 0)

def proveOutput (env : BuilderEnv) (output : OutputDescriptionInfo) : Except OperationError OutputDescription := do
  rejectIf (!env.hasCommitment output.note) (.errorOut "Output is invalid")
  match env.outputDescription output with
  | some odesc => return odesc
  | none => .error (.errorOut "Failed to create output description")

def proveSpend (env : BuilderEnv) (spend : SpendDescriptionInfo) : Except OperationError SpendDescription := do
  rejectIf (!env.spendValid spend) (.errorOut "Spend is invalid")
  match env.spendProof spend with
  | some sdesc => return sdesc
  | none => .error (.errorOut "Spend proof failed")

def dataToBeSigned (env : BuilderEnv) (tx : CTransaction) : Except OperationError Uint256 :=
  (env.signatureHash tx).mapError fun what => .errorOut ("Could not construct signature hash: " ++ what)

/-- The proofs and the shielded signatures. -/
def proveShielded (env : BuilderEnv) (b : TransactionBuilder) :
    Except OperationError (List SpendDescription × List OutputDescription × Vector UInt8 64) := do
  let unsigned : List CScript := b.vin.map fun _ => []
  let vShieldedOutput ← b.outputs.mapM (proveOutput env)
  let vShieldedSpend ← b.spends.mapM (proveSpend env)
  let hash ← dataToBeSigned env (b.mtx unsigned vShieldedSpend vShieldedOutput (.replicate 64 0))
  let vShieldedSpend := List.zipWith (fun spend sdesc => { sdesc with spendAuthSig := env.spendSig spend hash })
    b.spends vShieldedSpend
  return (vShieldedSpend, vShieldedOutput, env.bindingSig b.valueBalance hash)

/-- `ProveAndSign`, after `ClearProofsAndSignatures`. -/
def proveAndSign (env : BuilderEnv) (b : TransactionBuilder) : Except OperationError CTransaction := do
  let unsigned : List CScript := b.vin.map fun _ => []
  let (vShieldedSpend, vShieldedOutput, bindingSig) ←
    if b.hasShielded then proveShielded env b else .ok ([], [], .replicate 64 0)
  let txNewConst := b.mtx unsigned vShieldedSpend vShieldedOutput bindingSig
  let scriptSigs ← signed (b.tIns.zipIdx.mapM fun (tIn, nIn) => env.produceSignature txNewConst nIn tIn)
  return b.mtx scriptSigs vShieldedSpend vShieldedOutput bindingSig

/-! ## `Build` -/

def change (b : TransactionBuilder) : Checked Int := do
  let change ← checkInt64 (b.valueBalance - b.fee)
  let change ← b.tIns.foldlM (fun change tIn => checkInt64 (change + tIn.value)) change
  b.vout.foldlM (fun change tOut => checkInt64 (change - tOut.nValue)) change

def dustThreshold (env : BuilderEnv) (b : TransactionBuilder) : Int :=
  if b.hasShielded then getShieldedDustThreshold env.dustRelayFee else getTypicalDustThreshold env.dustRelayFee

/-- The memo of an output without one. -/
def NO_MEMO : List UInt8 := 0xf6 :: List.replicate 511 0

/-- The change goes to the shielded change address, the transparent one or the address of the first note; change that
    is dust goes to the fee. -/
def sendChange (env : BuilderEnv) (b : TransactionBuilder) (change : Int) : Except OperationError TransactionBuilder :=
  if change > 0 then
    if change > b.dustThreshold env then
      match b.saplingChangeAddr, b.tChangeAddr, b.spends with
      | some (ovk, address), _, _ => b.addSaplingOutput ovk address change NO_MEMO
      | none, some script, _ => b.addTransparentOutput ⟨change, script⟩
      | none, none, spend :: _ => b.addSaplingOutput spend.ovk spend.note.address change NO_MEMO
      | none, none, [] => .error (.errorOut "Could not determine change address")
    else do
      let fee ← operating (checkInt64 (b.fee + change))
      return { b with fee := fee }
  else return b

/-- `Build`: the builder afterwards, and the transaction. -/
def build (env : BuilderEnv) (fDummySig : Bool) (b : TransactionBuilder) :
    Except OperationError (TransactionBuilder × CTransaction) := do
  rejectIf (decide (b.fee < 0)) (.errorOut "Fee cannot be negative")
  let change ← operating b.change
  rejectIf (decide (change < 0)) (.errorOut "Change cannot be negative")
  let b ← b.sendChange env change
  let tx ← if fDummySig then b.addDummySignatures env else b.proveAndSign env
  return (b, tx)

/-! ## Values -/

def inputsValue (b : TransactionBuilder) : Int :=
  (b.tIns.map TransparentInputInfo.value).sum + (b.spends.map fun spend => (spend.note.value.toNat : Int)).sum

def outputsValue (b : TransactionBuilder) : Int :=
  (b.vout.map CTxOut.nValue).sum + (b.outputs.map fun output => (output.note.value.toNat : Int)).sum

/-- The change is one more output of either kind. -/
inductive Sent (b : TransactionBuilder) (value : Int) : TransactionBuilder → Prop
  | shielded (ovk : Uint256) (address : SaplingPaymentAddress) (memo : List UInt8) (valueBalance : Int) :
      Sent b value { b with
        outputs := b.outputs ++ [⟨ovk, ⟨address, noteValue value⟩, memo⟩]
        valueBalance := valueBalance }
  | transparent (script : CScript) : Sent b value { b with vout := b.vout ++ [⟨value, script⟩] }

section Values

variable {env : BuilderEnv} {b b' : TransactionBuilder} {value : Int}

theorem addSaplingOutput_eq_ok {ovk : Uint256} {address : SaplingPaymentAddress} {memo : List UInt8}
    (h : b.addSaplingOutput ovk address value memo = .ok b') :
    b' = { b with
      outputs := b.outputs ++ [⟨ovk, ⟨address, noteValue value⟩, memo⟩]
      valueBalance := b.valueBalance - value } := by
  simp only [addSaplingOutput, bind_eq_ok, operating_eq_ok, pure_eq_ok] at h
  obtain ⟨valueBalance, hbalance, rfl⟩ := h
  rw [checkInt64_eq_ok hbalance]

theorem addTransparentOutput_eq_ok {out : CTxOut} (h : b.addTransparentOutput out = .ok b') :
    b' = { b with vout := b.vout ++ [out] } := by
  simp only [addTransparentOutput, bind_eq_ok, rejectIf_eq_ok, exists_and_left, exists_const, pure_eq_ok] at h
  exact h.2.symm

theorem addSaplingSpend_eq_ok {spend : SpendDescriptionInfo} (h : b.addSaplingSpend spend = .ok b') :
    b' = { b with
      spends := b.spends ++ [spend]
      valueBalance := toInt64 (b.valueBalance + spend.note.value.toNat) } := by
  simp only [addSaplingSpend, bind_eq_ok, rejectIf_eq_ok, exists_and_left, exists_const, pure_eq_ok] at h
  exact h.2.symm

theorem change_eq_ok (h : b.change = .ok value) :
    value = b.valueBalance - b.fee + (b.tIns.map TransparentInputInfo.value).sum - (b.vout.map CTxOut.nValue).sum := by
  simp only [change, bind_eq_ok] at h
  obtain ⟨c, hc, c', hins, houts⟩ := h
  have hminus : (b.vout.map fun tOut => -tOut.nValue).sum = -(b.vout.map CTxOut.nValue).sum := by
    induction b.vout with
    | nil => rfl
    | cons out vout ih =>
      rw [List.map_cons, List.sum_cons, ih, List.map_cons, List.sum_cons]
      omega
  have hsum := foldlM_checkInt64 (f := fun tOut : CTxOut => -tOut.nValue) (by simpa only [Int.sub_eq_add_neg] using houts)
  rw [hsum, foldlM_checkInt64 hins, checkInt64_eq_ok hc, hminus]
  omega

theorem sendChange_eq_ok (h : b.sendChange env value = .ok b') (hvalue : 0 ≤ value) :
    (∃ fee, b' = { b with fee := fee }) ∧ (value = 0 ∨ value ≤ b.dustThreshold env) ∨ 0 < value ∧ Sent b value b' := by
  unfold sendChange at h
  split at h
  · rename_i hpos
    split at h
    · right
      refine ⟨hpos, ?_⟩
      split at h
      · rw [addSaplingOutput_eq_ok h]
        exact .shielded _ _ _ _
      · rw [addTransparentOutput_eq_ok h]
        exact .transparent _
      · rw [addSaplingOutput_eq_ok h]
        exact .shielded _ _ _ _
      · cases h
    · rename_i hdust
      rw [bind_eq_ok] at h
      obtain ⟨fee, -, h⟩ := h
      cases h
      exact .inl ⟨⟨fee, rfl⟩, .inr (not_lt.mp hdust)⟩
  · cases h
    exact .inl ⟨⟨b.fee, rfl⟩, .inl (by omega)⟩

/-- **`Build`**: the change is not negative; it is sent, or it is at most dust. -/
theorem build_eq_ok {fDummySig : Bool} {tx : CTransaction} (h : b.build env fDummySig = .ok (b', tx)) :
    0 ≤ b.fee ∧ ∃ value, 0 ≤ value ∧
      value = b.valueBalance - b.fee + (b.tIns.map TransparentInputInfo.value).sum - (b.vout.map CTxOut.nValue).sum ∧
      ((∃ fee, b' = { b with fee := fee }) ∧ (value = 0 ∨ value ≤ b.dustThreshold env) ∨ 0 < value ∧ Sent b value b') := by
  simp only [build, bind_eq_ok, rejectIf_eq_ok, exists_and_left, exists_const, operating_eq_ok,
    decide_eq_false_iff_not, not_lt] at h
  obtain ⟨hfee, value, hvalue, hchange, b'', hsend, h⟩ := h
  have hbuilder : b'' = b' := by
    split at h <;> rw [bind_eq_ok] at h <;> obtain ⟨tx', -, h⟩ := h <;> cases h <;> rfl
  subst hbuilder
  exact ⟨hfee, value, hchange, change_eq_ok hvalue, sendChange_eq_ok hsend hchange⟩

end Values

end TransactionBuilder

end KrovaCoin
