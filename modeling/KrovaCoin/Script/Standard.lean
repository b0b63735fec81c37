import KrovaCoin.Crypto

/-!
# Standard output scripts (`script/standard.cpp`)

* `isPayToPublicKeyHash_eq`, `isPayToColdStaking_eq` — a script of these forms is the one built from
  the key hashes in it.
-/

namespace KrovaCoin

/-- `txnouttype`. -/
inductive TxnOutType where
  | TX_NONSTANDARD
  | TX_PUBKEY
  | TX_PUBKEYHASH
  | TX_SCRIPTHASH
  | TX_MULTISIG
  | TX_NULL_DATA
  | TX_COLDSTAKE
  | TX_EXCHANGEADDR
  deriving DecidableEq, Repr

def matchPayToPubkey (script : CScript) : Option (List UInt8) :=
  let matchSize (size : Nat) : Option (List UInt8) :=
    if script.length = size + 2 ∧ script.head? = some (UInt8.ofNat size) ∧
        script.getLast? = some OP_CHECKSIG then some ((script.drop 1).take size)
    else none
  match matchSize PUBLIC_KEY_SIZE with
  | some pubkey => if validSize pubkey then some pubkey else none
  | none =>
    match matchSize COMPRESSED_PUBLIC_KEY_SIZE with
    | some pubkey => if validSize pubkey then some pubkey else none
    | none => none

def matchPayToPubkeyHash (script : CScript) : Option (List UInt8) :=
  if script.isPayToPublicKeyHash then some ((script.drop 3).take 20) else none

/-- `MatchPayToColdStaking`: the hash of the staker's key and that of the owner's key. -/
def matchPayToColdStaking (script : CScript) : Option (List UInt8 × List UInt8) :=
  if script.isPayToColdStaking then some ((script.drop 6).take 20, (script.drop 28).take 20) else none

def isSmallInteger (opcode : UInt8) : Bool := decide (OP_1 ≤ opcode ∧ opcode ≤ OP_16)

/-- The loop of `MatchMultisig`: the keys, the opcode that ends them and the script after it. -/
def multisigKeys : Nat → CScript → Option (List (List UInt8) × UInt8 × CScript)
  | 0, _ => none
  | fuel + 1, pc =>
    match getOp pc with
    | none => none
    | some (opcode, data, pc) =>
      if validSize data then (multisigKeys fuel pc).map fun r => (data :: r.1, r.2)
      else some ([], opcode, pc)

/-- `MatchMultisig`: the number of required signatures and the keys. -/
def matchMultisig (script : CScript) : Option (Nat × List (List UInt8)) :=
  if script.getLast? ≠ some OP_CHECKMULTISIG then none
  else
    match getOp script with
    | none => none
    | some (opcode, _, pc) =>
      if !isSmallInteger opcode then none
      else
        match multisigKeys (pc.length + 1) pc with
        | none => none
        | some (pubkeys, last, rest) =>
          if !isSmallInteger last then none
          else if pubkeys.length ≠ decodeOpN last ∨ decodeOpN last < decodeOpN opcode then none
          else if rest.length = 1 then some (decodeOpN opcode, pubkeys)
          else none

/-- `Solver`; `none` where it returns `false`. -/
def solver (scriptPubKey : CScript) : Option (TxnOutType × List (List UInt8)) :=
  if scriptPubKey.isEmpty then none
  else if scriptPubKey.isPayToScriptHash then
    some (.TX_SCRIPTHASH, [(scriptPubKey.drop 2).take 20])
  else if scriptPubKey.head? = some OP_RETURN ∧ CScript.isPushOnly (scriptPubKey.drop 1) then
    some (.TX_NULL_DATA, [])
  else
    match matchPayToPubkey scriptPubKey with
    | some pubkey => some (.TX_PUBKEY, [pubkey])
    | none =>
      match matchPayToPubkeyHash scriptPubKey with
      | some pubkeyhash => some (.TX_PUBKEYHASH, [pubkeyhash])
      | none =>
        if scriptPubKey.isPayToExchangeAddress then
          some (.TX_EXCHANGEADDR, [(scriptPubKey.drop 4).take 20])
        else
          match matchPayToColdStaking scriptPubKey with
          | some (staker, owner) => some (.TX_COLDSTAKE, [staker, owner])
          | none =>
            match matchMultisig scriptPubKey with
            | some (required, keys) =>
              some (.TX_MULTISIG, [UInt8.ofNat required] :: keys ++ [[UInt8.ofNat keys.length]])
            | none => none

/-! ## Building the scripts -/

/-- `GetScriptForDestination` of a `CKeyID`. -/
def payToPubKeyHash (keyID : List UInt8) : CScript :=
  [OP_DUP, OP_HASH160, 0x14] ++ keyID ++ [OP_EQUALVERIFY, OP_CHECKSIG]

/-- `GetScriptForStakeDelegation` and `GetScriptForStakeDelegationLOF`; `opcode` is the check they differ in. -/
def payToColdStaking (opcode : UInt8) (stakingKey spendingKey : List UInt8) : CScript :=
  [OP_DUP, OP_HASH160, OP_ROT, OP_IF, opcode, 0x14] ++ stakingKey ++ [OP_ELSE, 0x14] ++ spendingKey ++
    [OP_ENDIF, OP_EQUALVERIFY, OP_CHECKSIG]

def getScriptForStakeDelegation (stakingKey spendingKey : List UInt8) : CScript :=
  payToColdStaking OP_CHECKCOLDSTAKEVERIFY stakingKey spendingKey

def getScriptForStakeDelegationLOF (stakingKey spendingKey : List UInt8) : CScript :=
  payToColdStaking OP_CHECKCOLDSTAKEVERIFY_LOF stakingKey spendingKey

theorem drop_of_getElem? {α : Type} {s : List α} {i : Nat} {x : α} (h : s[i]? = some x) :
    s.drop i = x :: s.drop (i + 1) := by
  obtain ⟨hlt, hx⟩ := List.getElem?_eq_some_iff.mp h
  rw [List.drop_eq_getElem_cons hlt, hx]

theorem drop_eq_take_append {α : Type} (s : List α) (i n : Nat) : s.drop i = (s.drop i).take n ++ s.drop (i + n) := by
  rw [← List.drop_drop, List.take_append_drop]

theorem isPayToPublicKeyHash_eq {s : CScript} (h : s.isPayToPublicKeyHash = true) :
    s = payToPubKeyHash ((s.drop 3).take 20) := by
  simp only [CScript.isPayToPublicKeyHash, Bool.and_eq_true, beq_iff_eq] at h
  obtain ⟨⟨⟨⟨⟨hlen, h0⟩, h1⟩, h2⟩, h23⟩, h24⟩ := h
  have hend : s.drop 25 = [] := by simp [hlen]
  have hhash := drop_eq_take_append s 3 20
  rw [drop_of_getElem? h23, drop_of_getElem? h24, hend] at hhash
  calc s = s.drop 0 := rfl
    _ = OP_DUP :: OP_HASH160 :: 0x14 :: s.drop 3 := by
      rw [drop_of_getElem? h0, drop_of_getElem? h1, drop_of_getElem? h2]
    _ = payToPubKeyHash ((s.drop 3).take 20) := by
      conv_lhs => rw [hhash]
      simp [payToPubKeyHash]

theorem isPayToColdStaking_eq {s : CScript} (h : s.isPayToColdStaking = true) :
    ∃ opcode, (opcode = OP_CHECKCOLDSTAKEVERIFY ∨ opcode = OP_CHECKCOLDSTAKEVERIFY_LOF) ∧
      s = payToColdStaking opcode ((s.drop 6).take 20) ((s.drop 28).take 20) := by
  simp only [CScript.isPayToColdStaking, Bool.and_eq_true, Bool.or_eq_true, beq_iff_eq] at h
  obtain ⟨⟨⟨⟨⟨⟨⟨⟨⟨⟨⟨hlen, h0⟩, h1⟩, h2⟩, h3⟩, h4⟩, h5⟩, h26⟩, h27⟩, h48⟩, h49⟩, h50⟩ := h
  have hend : s.drop 51 = [] := by simp [hlen]
  have hstaker := drop_eq_take_append s 6 20
  have howner := drop_eq_take_append s 28 20
  rw [drop_of_getElem? h48, drop_of_getElem? h49, drop_of_getElem? h50, hend] at howner
  rw [drop_of_getElem? h26, drop_of_getElem? h27] at hstaker
  obtain ⟨opcode, hopcode, h4⟩ : ∃ opcode,
      (opcode = OP_CHECKCOLDSTAKEVERIFY ∨ opcode = OP_CHECKCOLDSTAKEVERIFY_LOF) ∧
        s[4]? = some opcode := by
    rcases h4 with h4 | h4
    · exact ⟨_, .inl rfl, h4⟩
    · exact ⟨_, .inr rfl, h4⟩
  refine ⟨opcode, hopcode, ?_⟩
  calc s = s.drop 0 := rfl
    _ = OP_DUP :: OP_HASH160 :: OP_ROT :: OP_IF :: opcode :: 0x14 :: s.drop 6 := by
      rw [drop_of_getElem? h0, drop_of_getElem? h1, drop_of_getElem? h2, drop_of_getElem? h3,
        drop_of_getElem? h4, drop_of_getElem? h5]
    _ = payToColdStaking opcode ((s.drop 6).take 20) ((s.drop 28).take 20) := by
      conv_lhs => rw [hstaker, howner]
      simp [payToColdStaking]

end KrovaCoin
