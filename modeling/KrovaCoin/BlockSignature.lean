import KrovaCoin.Kernel
import KrovaCoin.Script.Execution

/-!
# Block signatures (`blocksignature.cpp`)

A proof-of-stake block is signed with a key that `CheckBlockSignature` cuts out of the `scriptSig` of
the coinstake by byte offsets, while `VerifyScript` takes its key from the stack that the `scriptSig`
leaves.

* `checkBlockSignature` — `CheckBlockSignature`.
-/

namespace KrovaCoin

open Lib

/-- The bytes of a `scriptSig` that `CheckBlockSignature` takes as the public key, for an output of the given type;
    `none` where it returns `false`. The source reads the first byte without asking whether there is one. -/
def scriptSigKey (whichType : TxnOutType) (scriptSig : CScript) : Option (List UInt8) :=
  match scriptSig with
  | [] => none
  | b :: _ =>
    let start := 1 + b.toNat
    if start ≥ scriptSig.length - 1 then none
    else if whichType = .TX_COLDSTAKE then
      let start := start + (1 + (scriptSig.getD start 0).toNat)
      if start ≥ scriptSig.length - 1 then none else some (scriptSig.drop (start + 1))
    else if scriptSig.length = 73 then none
    else some (scriptSig.drop (start + 1))

/-- The key under which `CheckBlockSignature` verifies the block signature. -/
def blockSigningKey (block : CBlock) : Option CPubKey :=
  match block.vtx with
  | _ :: tx :: _ =>
    match tx.vin, tx.vout with
    | txin :: _, _ :: txout :: _ =>
      match solver txout.scriptPubKey with
      | none => none
      | some (.TX_PUBKEY, vSolutions) => some (.ofBytes (vSolutions.headD []))
      | some (.TX_PUBKEYHASH, _) => (scriptSigKey .TX_PUBKEYHASH txin.scriptSig).map .ofBytes
      | some (.TX_COLDSTAKE, _) => (scriptSigKey .TX_COLDSTAKE txin.scriptSig).map .ofBytes
      | some _ => some .invalid
    | _, _ => none
  | _ => none

def checkBlockSignature (c : Crypto) (block : CBlock) : Bool :=
  if block.isProofOfWork then block.vchBlockSig.isEmpty
  else if block.vchBlockSig.isEmpty then false
  else
    match blockSigningKey block with
    | none => false
    | some pubkey => pubkey.isValid && pubkey.verify c block.hash block.vchBlockSig

/-- The key hash that a pay-to-pubkey-hash or cold-staking script compares with: of the latter, the
    staker's or the owner's. -/
def CScript.keyHash (s : CScript) (staker : Bool) : List UInt8 :=
  if s.isPayToColdStaking then if staker then (s.drop 6).take 20 else (s.drop 28).take 20
  else (s.drop 3).take 20

/-- **The verified key is the one pushed last.** If the last operation of a `scriptSig` is a direct push, a successful
    verification against a pay-to-pubkey-hash or cold-staking script has compared the hash of that data and checked a
    signature of that key. -/
theorem verified_key {c : Crypto} {scriptSig scriptPubKey : CScript} {flags : UInt32}
    {checker : BaseSignatureChecker} {sigversion : SigVersion} {op : UInt8} {key : List UInt8}
    (hverify : verifyScript c scriptSig scriptPubKey flags checker sigversion = .ok ())
    (hscript : scriptPubKey.isPayToPublicKeyHash = true ∨ scriptPubKey.isPayToColdStaking = true)
    (hlast : scriptSig.lastOp = some (op, key)) (hop : op < OP_PUSHDATA1) :
    ∃ staker sig code, c.hash160 key = scriptPubKey.keyHash staker ∧
      checker.checkSig sig key code sigversion = true := by
  obtain ⟨stackCopy, stack, hsig, hpub, htop⟩ := verifyScript_ok hverify
  obtain ⟨s', fuel, hfuel, hloop, hvf, rfl⟩ := evalScript_ok hsig
  obtain ⟨below, hbelow⟩ := evalLoop_lastPush hop hfuel hlast hloop hvf
  rw [hbelow] at hpub
  by_cases hcold : scriptPubKey.isPayToColdStaking = true
  · obtain ⟨opcode, hopcode, heq⟩ := isPayToColdStaking_eq hcold
    have hlen : scriptPubKey.length = 51 := by
      simp only [CScript.isPayToColdStaking, Bool.and_eq_true, beq_iff_eq] at hcold
      exact hcold.1.1.1.1.1.1.1.1.1.1.1
    obtain ⟨key', flag, sig, st, code, hst, hhash, -, hcheck, -⟩ :=
      eval_payToColdStaking hopcode (by simp [hlen]) (by simp [hlen]) heq hpub htop
    cases hst
    refine ⟨castToBool flag, sig, code, ?_, hcheck⟩
    rw [CScript.keyHash, if_pos hcold]
    exact hhash
  · have hpkh := hscript.resolve_right hcold
    have hlen : scriptPubKey.length = 25 := by
      simp only [CScript.isPayToPublicKeyHash, Bool.and_eq_true, beq_iff_eq] at hpkh
      exact hpkh.1.1.1.1.1
    obtain ⟨key', sig, st, code, hst, hhash, -, hcheck⟩ :=
      eval_payToPubKeyHash (by simp [hlen]) (isPayToPublicKeyHash_eq hpkh) hpub htop
    cases hst
    refine ⟨true, sig, code, ?_, hcheck⟩
    rw [CScript.keyHash, if_neg hcold]
    exact hhash

theorem checkBlockSignature_ok {c : Crypto} {block : CBlock} (hpos : block.isProofOfStake = true)
    (h : checkBlockSignature c block = true) :
    ∃ key, blockSigningKey block = some key ∧ key.isValid = true ∧
      key.verify c block.hash block.vchBlockSig = true := by
  unfold checkBlockSignature at h
  rw [if_neg (by simp [CBlock.isProofOfWork, hpos])] at h
  split at h
  · cases h
  · split at h
    · cases h
    · rename_i key hkey
      rw [Bool.and_eq_true] at h
      exact ⟨key, hkey, h⟩

/-- The condition under which the two ways to find the key agree: by the walk of `GetOp`, the last
    operation of the `scriptSig` is a direct push of the bytes that `CheckBlockSignature` takes. -/
def PushesKeyLast (whichType : TxnOutType) (scriptSig : CScript) : Prop :=
  ∃ op key, scriptSig.lastOp = some (op, key) ∧ op < OP_PUSHDATA1 ∧
    scriptSigKey whichType scriptSig = some key

/-- Hash functions that copy their input, and signatures that name the second byte of their key. -/
def copyCrypto : Crypto where
  ripemd160 b := Vector.ofFn fun i => b.getD i 0
  sha1 b := Vector.ofFn fun i => b.getD i 0
  sha256 b := Vector.ofFn fun i => b.getD i 0
  ecdsaVerify key _ sig := sig.getD 4 0 == key.getD 1 0
  checkLowS _ := true
  signatureHash _ _ _ _ _ _ := 0

/-- A compressed key of 32 equal bytes, but for the last one. -/
def sampleKey (b : UInt8) : List UInt8 := 0x02 :: (List.replicate 31 b ++ [0x68])

/-- A signature, without hash type, by the key of `b`. -/
def sampleSig (b : UInt8) : List UInt8 := [0x30, 0x06, 0x02, 0x01, b, 0x02, 0x01, 0x01]

/-- `DEPTH DROP <sig> <key> NOP … NOP 0 IF <32 bytes> ENDIF`: the stack holds the signature and the
    key of 1, and the last 33 bytes are the key of 2. -/
def paddedScriptSig : CScript :=
  [OP_DEPTH, OP_DROP] ++ pushData (sampleSig 1 ++ [SIGHASH_ALL]) ++ pushData (sampleKey 1) ++
    List.replicate 69 OP_NOP ++ [OP_0, OP_IF, 0x20] ++ sampleKey 2

/-- The staked output and the first output of the coinstake: to the key of 1. -/
def stakedOut : CTxOut := ⟨10000, payToPubKeyHash (copyCrypto.hash160 (sampleKey 1))⟩

def stakeCoinbase : CTransaction := ⟨1, 1, 0, [⟨⟨0, 0xffffffff⟩, [0x51, 0x51], 0⟩], [⟨0, []⟩], 0, none, none⟩

def coinstakeOf (scriptSig : CScript) : CTransaction :=
  ⟨2, 1, 0, [⟨⟨7, 0⟩, scriptSig, 0⟩], [⟨0, []⟩, stakedOut], 0, none, none⟩

/-- A block around the coinstake, signed by the key of `b`. -/
def stakeBlock (scriptSig : CScript) (b : UInt8) : CBlock :=
  ⟨5, 8, 0, 0, 1000, 0x1d00ffff, 0, 0, [stakeCoinbase, coinstakeOf scriptSig], sampleSig b⟩

def stakeView : StakeView where
  accessCoin _ := ⟨false, false, stakedOut, 1⟩
  chainActive _ := some (0, 0)
  getTransaction _ := none
  activeHeight _ := none
  stakeModifier := List.replicate 32 0

/-- The `scriptSig` a wallet makes: signature and key. -/
def plainScriptSig : CScript := pushData (sampleSig 1 ++ [SIGHASH_ALL]) ++ pushData (sampleKey 1)

end KrovaCoin
