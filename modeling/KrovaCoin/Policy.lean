import KrovaCoin.Mempool
import KrovaCoin.Consensus.Vesting

/-!
# Relay policy (`policy/policy.cpp`)

* `getDustThreshold`, `isDust` — outputs that cost more to spend than they are worth.
* `areInputsStandard` — the form of the outputs that a transaction spends.

Principal results: `isStandardTx_iff`, `solver_cltvPayToPubKeyHash`, `acceptPolicyRules_tranche_iff`.
-/

namespace KrovaCoin

open Lib

/-! ## Dust -/

def DUST_RELAY_TX_FEE : Int := 30000

/-- The sizes of `sapling_transaction.h`. -/
def SPENDDESCRIPTION_SIZE : Nat := 384

def CTXOUT_REGULAR_SIZE : Nat := 34

def BINDINGSIG_SIZE : Nat := 64

/-- `GetSerializeSize(txout)`. -/
def CTxOut.serializeSize (txout : CTxOut) : Nat := 8 + bytesSize txout.scriptPubKey

def getDustThreshold (txout : CTxOut) (dustRelayFee : Int) : Int :=
  if txout.scriptPubKey.isUnspendable then 0
  else getFee dustRelayFee (txout.serializeSize + (32 + 4 + 1 + 107 + 4))

/-- `GetDustThreshold(dustRelayFee)`: that of a typical output. -/
def getTypicalDustThreshold (dustRelayFee : Int) : Int := getFee dustRelayFee 182

def isDust (txout : CTxOut) (dustRelayFee : Int) : Bool :=
  decide (txout.nValue < getDustThreshold txout dustRelayFee)

def getShieldedDustThreshold (dustRelayFee : Int) : Int :=
  toInt64 (DEFAULT_SHIELDEDTXFEE_K *
    getFee dustRelayFee (SPENDDESCRIPTION_SIZE + CTXOUT_REGULAR_SIZE + BINDINGSIG_SIZE))

/-! ## Standard transactions -/

def MAX_OP_RETURN_RELAY : Nat := 83

def MAX_P2SH_SIGOPS : Nat := 15

/-- The longest `scriptSig` of a standard input. -/
def MAX_STANDARD_SCRIPTSIG_SIZE : Nat := 1650

/-- The options the policy reads, with their defaults. `-acceptnonstdtxn`, which unsets `fRequireStandard`, is an error
    on the main network. -/
structure PolicyOptions where
  fRequireStandard : Bool := true
  fIsBareMultisigStd : Bool := true
  datacarrier : Bool := true
  nMaxDatacarrierBytes : Nat := MAX_OP_RETURN_RELAY
  dustRelayFee : Int := DUST_RELAY_TX_FEE

/-- `IsStandard`: the type of the script, `none` where it returns `false`. -/
def isStandard (opts : PolicyOptions) (scriptPubKey : CScript) : Option TxnOutType :=
  match solver scriptPubKey with
  | none => none
  | some (whichType, vSolutions) =>
    if whichType = .TX_MULTISIG then
      let m := (vSolutions.headD []).headD 0
      let n := (vSolutions.getLastD []).headD 0
      if n < 1 ∨ n > 3 then none
      else if m < 1 ∨ m > n then none
      else some whichType
    else if whichType = .TX_NULL_DATA ∧
        (!opts.datacarrier ∨ scriptPubKey.length > opts.nMaxDatacarrierBytes) then none
    else if whichType = .TX_NONSTANDARD then none
    else some whichType

/-- One iteration of the loop of `IsStandardTx` over the outputs; the state is `nDataOut`. -/
def standardOutputStep (opts : PolicyOptions) (nDataOut : Nat) (txout : CTxOut) : Except String Nat :=
  match isStandard opts txout.scriptPubKey with
  | none => .error "scriptpubkey"
  | some whichType =>
    if whichType = .TX_NULL_DATA then .ok (nDataOut + 1)
    else if whichType = .TX_MULTISIG ∧ !opts.fIsBareMultisigStd then .error "bare-multisig"
    else if isDust txout opts.dustRelayFee then .error "dust"
    else .ok nDataOut

/-- The checks of `IsStandardTx` on one input. -/
def checkScriptSigForm (txin : CTxIn) : Except String Unit := do
  rejectIf (decide (txin.scriptSig.length > MAX_STANDARD_SCRIPTSIG_SIZE)) "scriptsig-size"
  rejectIf (!txin.scriptSig.isPushOnly) "scriptsig-not-pushonly"

def CTransaction.maxStandardSize (tx : CTransaction) : Nat :=
  if tx.isShieldedTx then MAX_TX_SIZE_AFTER_SAPLING else MAX_STANDARD_TX_SIZE

/-- `IsStandardTx`; the error is the reason. -/
def isStandardTx (opts : PolicyOptions) (p : Params) (adjustedTime : Int) (tx : CTransaction)
    (nBlockHeight : Int) : Except String Unit := do
  rejectIf (!p.networkUpgradeActive nBlockHeight .UPGRADE_V5_0 && tx.nVersion != 1) "version"
  rejectIf (!isFinalTx adjustedTime tx nBlockHeight 0) "non-final"
  rejectIf (decide (tx.getTotalSize ≥ tx.maxStandardSize)) "tx-size"
  tx.vin.forM checkScriptSigForm
  let nDataOut ← tx.vout.foldlM (standardOutputStep opts) 0
  rejectIf (decide (nDataOut > 1)) "multi-op-return"

/-- `BaseSignatureChecker`: no signature and no lock is ever met. -/
def baseSignatureChecker : BaseSignatureChecker where
  checkSig _ _ _ _ := false
  checkLockTime _ := false
  checkColdStake _ _ _ _ := .error .UNKNOWN_ERROR

/-- The body of the loop of `AreInputsStandard`. -/
def inputStandard (c : Crypto) (v : View) (tx : CTransaction) (txin : CTxIn) : Bool :=
  match solver (v.accessCoin txin.prevout).out.scriptPubKey with
  | none => false
  | some (whichType, _) =>
    if whichType = .TX_SCRIPTHASH then
      match evalScript ⟨c, baseSignatureChecker, 0, tx.getRequiredSigVersion, txin.scriptSig⟩ [] with
      | .error _ => false
      | .ok [] => false
      | .ok (subscript :: _) => decide (CScript.getSigOpCount subscript true ≤ MAX_P2SH_SIGOPS)
    else true

def areInputsStandard (c : Crypto) (v : View) (tx : CTransaction) : Bool :=
  tx.isCoinBase || tx.vin.all (inputStandard c v tx)

/-- The policy tests of `AcceptToMemoryPoolWorker`, with the view that holds the inputs. -/
def acceptPolicyRules (opts : PolicyOptions) (p : Params) (c : Crypto) (adjustedTime nextBlockHeight : Int)
    (v : View) (tx : CTransaction) : Except Failure Unit := do
  if opts.fRequireStandard then
    match isStandardTx opts p adjustedTime tx nextBlockHeight with
    | .error reason => .error (dos 0 REJECT_NONSTANDARD reason)
    | .ok () => .ok ()
  rejectIf (opts.fRequireStandard && !areInputsStandard c v tx)
    (dos 0 REJECT_NONSTANDARD "bad-txns-nonstandard-inputs")

/-- The flags of the first `CheckInputs` of `AcceptToMemoryPoolWorker`. Without the one for `OP_CHECKLOCKTIMEVERIFY` the
    opcode would be refused as an upgradable no-op. -/
def standardVerifyFlags (p : Params) (chainHeight : Int) : UInt32 :=
  STANDARD_SCRIPT_VERIFY_FLAGS |||
    (if p.networkUpgradeActive chainHeight .UPGRADE_BIP65 then SCRIPT_VERIFY_CHECKLOCKTIMEVERIFY else 0) |||
    (if p.networkUpgradeActive chainHeight .UPGRADE_V5_6 then SCRIPT_VERIFY_EXCHANGEADDR else 0)

/-! ## What is standard -/

/-- An output that the loop of `IsStandardTx` lets pass. -/
def OutputStandard (opts : PolicyOptions) (txout : CTxOut) : Prop :=
  ∃ whichType, isStandard opts txout.scriptPubKey = some whichType ∧
    (whichType = .TX_NULL_DATA ∨
      ¬(whichType = .TX_MULTISIG ∧ !opts.fIsBareMultisigStd) ∧ isDust txout opts.dustRelayFee = false)

def isDataOutput (opts : PolicyOptions) (txout : CTxOut) : Bool :=
  isStandard opts txout.scriptPubKey == some .TX_NULL_DATA

variable {opts : PolicyOptions}

theorem standardOutputStep_eq_ok {n m : Nat} {txout : CTxOut} : standardOutputStep opts n txout = .ok m ↔
      OutputStandard opts txout ∧ m = n + if isDataOutput opts txout then 1 else 0 := by
  unfold standardOutputStep OutputStandard isDataOutput
  cases htype : isStandard opts txout.scriptPubKey with
  | none => simp
  | some whichType =>
    simp only [Option.some.injEq, exists_eq_left', Option.some_beq_some, beq_iff_eq]
    by_cases hdata : whichType = .TX_NULL_DATA
    · simp only [hdata, if_true, true_or, true_and, Except.ok.injEq]
      exact eq_comm
    · simp only [hdata, if_false, false_or, Nat.add_zero]
      split
      · rename_i hbare
        simp only [reduceCtorEq, false_iff]
        exact fun h => h.1.1 hbare
      · rename_i hbare
        split
        · rename_i hdust
          simp [hdust]
        · rename_i hdust
          simp only [hbare, hdust, not_false_eq_true, true_and, Except.ok.injEq]
          exact eq_comm

theorem standardOutputs_eq_ok : ∀ {vout : List CTxOut} {n m : Nat}, vout.foldlM (standardOutputStep opts) n = .ok m ↔
      (∀ txout ∈ vout, OutputStandard opts txout) ∧ m = n + vout.countP (isDataOutput opts)
  | [], n, m => by
    rw [List.foldlM_nil, pure_eq_ok]
    simp [eq_comm]
  | txout :: vout, n, m => by
    rw [List.foldlM_cons, bind_eq_ok, List.forall_mem_cons, List.countP_cons]
    constructor
    · rintro ⟨n', hstep, hrest⟩
      obtain ⟨hout, rfl⟩ := standardOutputStep_eq_ok.mp hstep
      obtain ⟨hall, rfl⟩ := standardOutputs_eq_ok.mp hrest
      exact ⟨⟨hout, hall⟩, by omega⟩
    · rintro ⟨⟨hout, hall⟩, rfl⟩
      refine ⟨_, standardOutputStep_eq_ok.mpr ⟨hout, rfl⟩, standardOutputs_eq_ok.mpr ⟨hall, by omega⟩⟩

/-- A transaction of standard form: final, not too large, with short push-only `scriptSig`s, and with
    standard outputs of which at most one carries data. -/
structure StandardForm (opts : PolicyOptions) (p : Params) (adjustedTime nBlockHeight : Int)
    (tx : CTransaction) : Prop where
  version : p.networkUpgradeActive nBlockHeight .UPGRADE_V5_0 = true ∨ tx.nVersion = 1
  isFinal : isFinalTx adjustedTime tx nBlockHeight 0 = true
  size : tx.getTotalSize < tx.maxStandardSize
  scriptSigs : ∀ txin ∈ tx.vin, txin.scriptSig.length ≤ MAX_STANDARD_SCRIPTSIG_SIZE ∧
    txin.scriptSig.isPushOnly = true
  outputs : ∀ txout ∈ tx.vout, OutputStandard opts txout
  dataOutputs : tx.vout.countP (isDataOutput opts) ≤ 1

theorem checkScriptSigForm_eq_ok {txin : CTxIn} : checkScriptSigForm txin = .ok () ↔
    txin.scriptSig.length ≤ MAX_STANDARD_SCRIPTSIG_SIZE ∧ txin.scriptSig.isPushOnly = true := by
  simp [checkScriptSigForm, bind_eq_ok, rejectIf_eq_ok]

variable {p : Params} {tx : CTransaction}

/-- **`IsStandardTx` accepts exactly the transactions of standard form.** -/
theorem isStandardTx_iff {adjustedTime nBlockHeight : Int} : isStandardTx opts p adjustedTime tx nBlockHeight = .ok () ↔
      StandardForm opts p adjustedTime nBlockHeight tx := by
  simp only [isStandardTx, bind_eq_ok, rejectIf_eq_ok, exists_and_left, exists_const, forM_eq_ok,
    checkScriptSigForm_eq_ok, standardOutputs_eq_ok, decide_eq_false_iff_not, Bool.not_eq_false',
    Bool.and_eq_false_iff, bne_eq_false_iff_eq, not_le, Nat.zero_add, ge_iff_le, gt_iff_lt]
  constructor
  · rintro ⟨hversion, hfinal, hsize, hsigs, n, ⟨hout, rfl⟩, hdata⟩
    exact ⟨hversion, hfinal, hsize, hsigs, hout, by omega⟩
  · rintro ⟨hversion, hfinal, hsize, hsigs, hout, hdata⟩
    exact ⟨hversion, hfinal, hsize, hsigs, _, ⟨hout, rfl⟩, by omega⟩

theorem acceptPolicyRules_iff {c : Crypto} {adjustedTime nextBlockHeight : Int} {v : View}
    (hreq : opts.fRequireStandard = true) : acceptPolicyRules opts p c adjustedTime nextBlockHeight v tx = .ok () ↔
      StandardForm opts p adjustedTime nextBlockHeight tx ∧ areInputsStandard c v tx = true := by
  simp only [acceptPolicyRules, hreq, if_true, Bool.true_and, ← isStandardTx_iff]
  cases hstd : isStandardTx opts p adjustedTime tx nextBlockHeight with
  | error reason => simp
  | ok u => simp [rejectIf_eq_ok]

/-! ## The vesting tranches -/

variable {keyID : List UInt8}

theorem extractKeyID_length {scriptPubKey : CScript} (h : extractKeyID scriptPubKey = .ok keyID) :
    keyID.length = 20 := by
  unfold extractKeyID at h
  split at h
  · rename_i keyID' hsolver
    cases h
    unfold solver at hsolver
    split at hsolver
    · cases hsolver
    · split at hsolver
      · cases hsolver
      · split at hsolver
        · cases hsolver
        · split at hsolver
          · cases hsolver
          · split at hsolver
            · rename_i pubkeyhash hmatch
              cases hsolver
              unfold matchPayToPubkeyHash at hmatch
              split at hmatch
              · rename_i hform
                cases hmatch
                simp only [CScript.isPayToPublicKeyHash, Bool.and_eq_true, beq_iff_eq] at hform
                simp [hform]
              · cases hmatch
            · split at hsolver
              · cases hsolver
              · split at hsolver
                · cases hsolver
                · split at hsolver
                  · cases hsolver
                  · cases hsolver
  · cases h

theorem cltvPayToPubKeyHash_shape {n : Int} (h16 : 16 < n) (hkey : keyID.length = 20) :
    ∃ k : Nat, k ≤ 9 ∧ (getCLTVPayToPubKeyHash n keyID).head? = some (UInt8.ofNat k) ∧
      (getCLTVPayToPubKeyHash n keyID).length = 28 + k ∧
      (getCLTVPayToPubKeyHash n keyID).getLast? = some OP_CHECKSIG := by
  have hpush : pushData keyID = 0x14 :: keyID := by
    rw [pushData, if_pos (by rw [hkey]; decide), hkey]
    rfl
  refine ⟨(serializeScriptNum n).length, @serializeScriptNum_length n (by omega), ?_, ?_, ?_⟩
  · simp [getCLTVPayToPubKeyHash, pushInt64_eq h16]
  · simp [getCLTVPayToPubKeyHash, pushInt64_eq h16, hpush, hkey]
    omega
  · rw [getCLTVPayToPubKeyHash, List.getLast?_append]
    rfl

/-- **`Solver` knows no template for the script of a tranche.** -/
theorem solver_cltvPayToPubKeyHash {n : Int} (h16 : 16 < n) (hkey : keyID.length = 20) :
    solver (getCLTVPayToPubKeyHash n keyID) = none := by
  obtain ⟨k, hk, hhead, hlen, hlast⟩ := cltvPayToPubKeyHash_shape h16 hkey
  generalize getCLTVPayToPubKeyHash n keyID = s at hhead hlen hlast
  have hbyte : ∀ b : Nat, 9 < b → b < 256 → UInt8.ofNat k ≠ UInt8.ofNat b := by
    intro b hb hb' heq
    have := congrArg UInt8.toNat heq
    rw [UInt8.toNat_ofNat', UInt8.toNat_ofNat'] at this
    omega
  have hempty : s.isEmpty = false := by
    cases s with
    | nil => simp at hlen; omega
    | cons => rfl
  have hreturn : ¬ (s.head? = some OP_RETURN ∧ CScript.isPushOnly (s.drop 1) = true) := by
    rintro ⟨h, -⟩
    rw [hhead] at h
    exact hbyte 0x6a (by omega) (by omega) (Option.some.inj h)
  have hpubkey : matchPayToPubkey s = none := by
    have hsize : ∀ size : Nat, 9 < size → size < 256 → ¬ (s.length = size + 2 ∧
        s.head? = some (UInt8.ofNat size) ∧ s.getLast? = some OP_CHECKSIG) := by
      rintro size hlo hhi ⟨-, h, -⟩
      rw [hhead] at h
      exact hbyte size hlo hhi (Option.some.inj h)
    simp only [matchPayToPubkey, if_neg (hsize PUBLIC_KEY_SIZE (by decide) (by decide)),
      if_neg (hsize COMPRESSED_PUBLIC_KEY_SIZE (by decide) (by decide))]
  have hhash : matchPayToPubkeyHash s = none := by
    simp only [matchPayToPubkeyHash, CScript.isPayToPublicKeyHash, hlen]
    simp
    omega
  have hcold : matchPayToColdStaking s = none := by
    have : ¬ 28 + k = 51 := by omega
    simp [matchPayToColdStaking, CScript.isPayToColdStaking, hlen, this]
  have hscript : s.isPayToScriptHash = false := by
    have : ¬ 28 + k = 23 := by omega
    simp [CScript.isPayToScriptHash, hlen, this]
  have hexchange : s.isPayToExchangeAddress = false := by
    have : ¬ 28 + k = 26 := by omega
    simp [CScript.isPayToExchangeAddress, hlen, this]
  have hmulti : matchMultisig s = none := by
    rw [matchMultisig, hlast, if_pos (by decide)]
  simp only [solver, hempty, hscript, hreturn, hpubkey, hhash, hexchange, hcold, hmulti, if_false, Bool.false_eq_true]

/-- The outputs of `GetTeamVestingOutputs`. -/
def IsTranche (p : Params) (out : CTxOut) : Prop :=
  ∃ outs, getTeamVestingOutputs p = .ok outs ∧ out ∈ outs

def SpendsTranche (p : Params) (v : View) (txin : CTxIn) : Prop := IsTranche p (v.accessCoin txin.prevout).out

theorem IsTranche.solver_eq_none (htime : LOCKTIME_THRESHOLD ≤ p.genesisTime) {out : CTxOut} (h : IsTranche p out) :
    solver out.scriptPubKey = none := by
  obtain ⟨outs, houts, hmem⟩ := h
  simp only [getTeamVestingOutputs, bind_eq_ok, pure_eq_ok] at houts
  obtain ⟨-, -, keyID, hkey, rfl⟩ := houts
  obtain ⟨i, hi, rfl⟩ := List.mem_map.mp hmem
  have hrange := unlockTime_range p (List.mem_range.mp hi)
  unfold LOCKTIME_THRESHOLD at htime
  unfold unlockTime at hrange
  exact solver_cltvPayToPubKeyHash (by omega) (extractKeyID_length hkey)

/-- **The policy refuses the spends of the tranches.** A transaction of standard form whose other inputs spend standard
    outputs passes the policy of the main network if and only if it spends no tranche. -/
theorem acceptPolicyRules_tranche_iff {opts : PolicyOptions} {c : Crypto} {adjustedTime nextBlockHeight : Int}
    {v : View} {tx : CTransaction} (hreq : opts.fRequireStandard = true) (hcoinbase : tx.isCoinBase = false)
    (hform : StandardForm opts mainParams adjustedTime nextBlockHeight tx)
    (hinputs : ∀ txin ∈ tx.vin, SpendsTranche mainParams v txin ∨ inputStandard c v tx txin = true) :
    acceptPolicyRules opts mainParams c adjustedTime nextBlockHeight v tx = .ok () ↔
      ∀ txin ∈ tx.vin, ¬ SpendsTranche mainParams v txin := by
  rw [acceptPolicyRules_iff hreq, and_iff_right hform]
  simp only [areInputsStandard, hcoinbase, Bool.false_or, List.all_eq_true]
  constructor
  · intro hall txin hmem htranche
    have hin := hall txin hmem
    rw [inputStandard, htranche.solver_eq_none (by decide)] at hin
    cases hin
  · intro hnone txin hmem
    exact (hinputs txin hmem).resolve_left (hnone txin hmem)

/-! ## A refused spend -/

def vestedRecipient : CScript := payToPubKeyHash (List.replicate 20 7)

/-- A spend of the first tranche after its unlock time, which pays a fee of one coin. -/
def vestedSpend : CTransaction :=
  ⟨3, 1, 0, [⟨⟨1, 5⟩, pushData [0x30, 0x06, 0x02, 0x01, 0x01, 0x02, 0x01, 0x01, SIGHASH_ALL] ++
    pushData (0x02 :: List.replicate 32 7), 0⟩], [⟨20000000000000000 - COIN, vestedRecipient⟩], 1817467200,
    none, none⟩

/-- A view with one coin at the outpoint that the spend names. -/
def vestedView (out : CTxOut) : View :=
  ⟨⟨KMap.set ∅ ⟨1, 5⟩ (some ⟨true, false, out, 1⟩), 77, ∅, ∅, none⟩, ⟨0, ∅, 0, ∅, ∅⟩⟩

theorem vestedSpend_standardForm : StandardForm {} mainParams 1817467201 500000 vestedSpend :=
  isStandardTx_iff.mp (by decide +kernel)

theorem vestedSpend_plain_accepted : acceptPolicyRules {} mainParams teamCrypto 1817467201 500000
      (vestedView ⟨20000000000000000, payToPubKeyHash teamKeyID⟩) vestedSpend = .ok () := by
  have hstandard : ∀ txin ∈ vestedSpend.vin, inputStandard teamCrypto
      (vestedView ⟨20000000000000000, payToPubKeyHash teamKeyID⟩) vestedSpend txin = true := by decide +kernel
  refine (acceptPolicyRules_tranche_iff rfl (by decide) vestedSpend_standardForm
    fun txin hmem => .inr (hstandard txin hmem)).mpr ?_
  intro txin hmem htranche
  have hin := hstandard txin hmem
  rw [inputStandard, htranche.solver_eq_none (by decide)] at hin
  cases hin

/-- A spend of the first tranche that is valid, final for the next block, pays its fee and passes
    `VerifyScript` under the flags of the memory pool, and that the policy refuses for its input. -/
theorem vestedSpend_refused : IsTranche mainParams firstTranche ∧
      (vestedView firstTranche).accessCoin ⟨1, 5⟩ = ⟨true, false, firstTranche, 1⟩ ∧
      checkTransaction mainParams vestedSpend true = .ok () ∧
      isFinalTx 1817467201 vestedSpend 500000 1817467201 = true ∧
      acceptFeeRule mainParams DEFAULT_MIN_RELAY_TX_FEE 0 true false (vestedView firstTranche) vestedSpend = .ok () ∧
      (∃ txin, vestedSpend.vin = [txin] ∧ txin.prevout = ⟨1, 5⟩ ∧
        verifyScript teamCrypto txin.scriptSig firstTranche.scriptPubKey (standardVerifyFlags mainParams 499999)
          (transactionSignatureChecker teamCrypto vestedSpend 0 firstTranche.nValue)
          vestedSpend.getRequiredSigVersion = .ok ()) ∧
      isStandardTx {} mainParams 1817467201 vestedSpend 500000 = .ok () ∧
      acceptPolicyRules {} mainParams teamCrypto 1817467201 500000 (vestedView firstTranche) vestedSpend =
        .error (dos 0 REJECT_NONSTANDARD "bad-txns-nonstandard-inputs") := by
  have htranche : (getTeamVestingOutputs mainParams).toOption.bind (·[0]?) = some firstTranche := by
    decide +kernel
  refine ⟨?_, by decide +kernel, by decide +kernel, by decide +kernel, by decide +kernel,
    ⟨_, rfl, rfl, by decide +kernel⟩, by decide +kernel, by decide +kernel⟩
  obtain ⟨keyID, houts⟩ := getTeamVestingOutputs_ok mainParams
  rw [houts] at htranche
  exact ⟨_, houts, List.mem_of_getElem? htranche⟩

end KrovaCoin
