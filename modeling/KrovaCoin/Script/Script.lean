import KrovaCoin.Amount

/-!
# Scripts (`script/script.h`, `script/script.cpp`)

A `CScript` is its byte string. Opcodes are the bytes the `opcodetype` enumeration gives them: the source casts
arbitrary bytes to that type, so every byte is a value of it.

* `CScript.isPayToPublicKeyHash` and its siblings — the byte templates.
* `serializeScriptNum` / `setVch` — `CScriptNum::serialize` and `set_vch`.
* `getSigOpCount`, `isPushOnly` — walks over the operations.
-/

namespace KrovaCoin

abbrev CScript := List UInt8

def MAX_SCRIPT_ELEMENT_SIZE : Nat := 520

def MAX_PUBKEYS_PER_MULTISIG : Nat := 20

def MAX_SCRIPT_SIZE : Nat := 10000

/-- Below this value `nLockTime` is a block number, otherwise a time. -/
def LOCKTIME_THRESHOLD : Int := 500000000

/-! ## Opcodes -/

def OP_0 : UInt8 := 0x00
def OP_PUSHDATA1 : UInt8 := 0x4c
def OP_PUSHDATA2 : UInt8 := 0x4d
def OP_PUSHDATA4 : UInt8 := 0x4e
def OP_1NEGATE : UInt8 := 0x4f
def OP_RESERVED : UInt8 := 0x50
def OP_1 : UInt8 := 0x51
def OP_16 : UInt8 := 0x60
def OP_NOP : UInt8 := 0x61
def OP_VER : UInt8 := 0x62
def OP_IF : UInt8 := 0x63
def OP_NOTIF : UInt8 := 0x64
def OP_VERIF : UInt8 := 0x65
def OP_VERNOTIF : UInt8 := 0x66
def OP_ELSE : UInt8 := 0x67
def OP_ENDIF : UInt8 := 0x68
def OP_VERIFY : UInt8 := 0x69
def OP_RETURN : UInt8 := 0x6a
def OP_TOALTSTACK : UInt8 := 0x6b
def OP_FROMALTSTACK : UInt8 := 0x6c
def OP_2DROP : UInt8 := 0x6d
def OP_2DUP : UInt8 := 0x6e
def OP_3DUP : UInt8 := 0x6f
def OP_2OVER : UInt8 := 0x70
def OP_2ROT : UInt8 := 0x71
def OP_2SWAP : UInt8 := 0x72
def OP_IFDUP : UInt8 := 0x73
def OP_DEPTH : UInt8 := 0x74
def OP_DROP : UInt8 := 0x75
def OP_DUP : UInt8 := 0x76
def OP_NIP : UInt8 := 0x77
def OP_OVER : UInt8 := 0x78
def OP_PICK : UInt8 := 0x79
def OP_ROLL : UInt8 := 0x7a
def OP_ROT : UInt8 := 0x7b
def OP_SWAP : UInt8 := 0x7c
def OP_TUCK : UInt8 := 0x7d
def OP_CAT : UInt8 := 0x7e
def OP_SUBSTR : UInt8 := 0x7f
def OP_LEFT : UInt8 := 0x80
def OP_RIGHT : UInt8 := 0x81
def OP_SIZE : UInt8 := 0x82
def OP_INVERT : UInt8 := 0x83
def OP_AND : UInt8 := 0x84
def OP_OR : UInt8 := 0x85
def OP_XOR : UInt8 := 0x86
def OP_EQUAL : UInt8 := 0x87
def OP_EQUALVERIFY : UInt8 := 0x88
def OP_1ADD : UInt8 := 0x8b
def OP_1SUB : UInt8 := 0x8c
def OP_2MUL : UInt8 := 0x8d
def OP_2DIV : UInt8 := 0x8e
def OP_NEGATE : UInt8 := 0x8f
def OP_ABS : UInt8 := 0x90
def OP_NOT : UInt8 := 0x91
def OP_0NOTEQUAL : UInt8 := 0x92
def OP_ADD : UInt8 := 0x93
def OP_SUB : UInt8 := 0x94
def OP_MUL : UInt8 := 0x95
def OP_DIV : UInt8 := 0x96
def OP_MOD : UInt8 := 0x97
def OP_LSHIFT : UInt8 := 0x98
def OP_RSHIFT : UInt8 := 0x99
def OP_BOOLAND : UInt8 := 0x9a
def OP_BOOLOR : UInt8 := 0x9b
def OP_NUMEQUAL : UInt8 := 0x9c
def OP_NUMEQUALVERIFY : UInt8 := 0x9d
def OP_NUMNOTEQUAL : UInt8 := 0x9e
def OP_LESSTHAN : UInt8 := 0x9f
def OP_GREATERTHAN : UInt8 := 0xa0
def OP_LESSTHANOREQUAL : UInt8 := 0xa1
def OP_GREATERTHANOREQUAL : UInt8 := 0xa2
def OP_MIN : UInt8 := 0xa3
def OP_MAX : UInt8 := 0xa4
def OP_WITHIN : UInt8 := 0xa5
def OP_RIPEMD160 : UInt8 := 0xa6
def OP_SHA1 : UInt8 := 0xa7
def OP_SHA256 : UInt8 := 0xa8
def OP_HASH160 : UInt8 := 0xa9
def OP_HASH256 : UInt8 := 0xaa
def OP_CODESEPARATOR : UInt8 := 0xab
def OP_CHECKSIG : UInt8 := 0xac
def OP_CHECKSIGVERIFY : UInt8 := 0xad
def OP_CHECKMULTISIG : UInt8 := 0xae
def OP_CHECKMULTISIGVERIFY : UInt8 := 0xaf
def OP_NOP1 : UInt8 := 0xb0
def OP_CHECKLOCKTIMEVERIFY : UInt8 := 0xb1
def OP_NOP3 : UInt8 := 0xb2
def OP_NOP10 : UInt8 := 0xb9
def OP_ZEROCOINMINT : UInt8 := 0xc1
def OP_ZEROCOINSPEND : UInt8 := 0xc2
def OP_ZEROCOINPUBLICSPEND : UInt8 := 0xc3
def OP_CHECKCOLDSTAKEVERIFY_LOF : UInt8 := 0xd1
def OP_CHECKCOLDSTAKEVERIFY : UInt8 := 0xd2
def OP_EXCHANGEADDR : UInt8 := 0xe0

/-! ## Operations -/

/-- The operand of `n` bytes that follows an opcode, or a truncated script. -/
def takeOperand (opcode : UInt8) (n : Nat) (rest : CScript) :
    Option (UInt8 × List UInt8 × CScript) :=
  if rest.length < n then none else some (opcode, rest.take n, rest.drop n)

/-- `CScript::GetOp2`: the opcode, its operand and what follows; `none` at the end of the script and
    on a truncated operand. -/
def getOp : CScript → Option (UInt8 × List UInt8 × CScript)
  | [] => none
  | opcode :: pc =>
    if opcode < OP_PUSHDATA1 then takeOperand opcode opcode.toNat pc
    else if opcode = OP_PUSHDATA1 then
      match pc with
      | n :: pc => takeOperand opcode n.toNat pc
      | _ => none
    else if opcode = OP_PUSHDATA2 then
      match pc with
      | a :: b :: pc => takeOperand opcode (a.toNat + 256 * b.toNat) pc
      | _ => none
    else if opcode = OP_PUSHDATA4 then
      match pc with
      | a :: b :: c :: d :: pc =>
        takeOperand opcode (a.toNat + 256 * (b.toNat + 256 * (c.toNat + 256 * d.toNat))) pc
      | _ => none
    else some (opcode, [], pc)

theorem takeOperand_length {opcode op : UInt8} {n : Nat} {rest r : CScript} {d : List UInt8}
    (h : takeOperand opcode n rest = some (op, d, r)) : r.length ≤ rest.length := by
  unfold takeOperand at h
  split at h
  · cases h
  · cases h
    simp

theorem getOp_length {s r : CScript} {op : UInt8} {d : List UInt8}
    (h : getOp s = some (op, d, r)) : r.length < s.length := by
  unfold getOp at h
  split at h
  · cases h
  · simp only [List.length_cons]
    split at h
    · have := takeOperand_length h
      omega
    split at h
    · split at h
      · have := takeOperand_length h
        simp only [List.length_cons]
        omega
      · cases h
    split at h
    · split at h
      · have := takeOperand_length h
        simp only [List.length_cons]
        omega
      · cases h
    split at h
    · split at h
      · have := takeOperand_length h
        simp only [List.length_cons]
        omega
      · cases h
    · cases h
      omega

/-! ## Building scripts -/

/-- `CScript::operator<<(const std::vector<unsigned char>&)`. -/
def pushData (b : List UInt8) : CScript :=
  if b.length < OP_PUSHDATA1.toNat then UInt8.ofNat b.length :: b
  else if b.length ≤ 0xff then OP_PUSHDATA1 :: UInt8.ofNat b.length :: b
  else if b.length ≤ 0xffff then
    OP_PUSHDATA2 :: UInt8.ofNat b.length :: UInt8.ofNat (b.length / 256) :: b
  else
    OP_PUSHDATA4 :: UInt8.ofNat b.length :: UInt8.ofNat (b.length / 256) ::
      UInt8.ofNat (b.length / 65536) :: UInt8.ofNat (b.length / 16777216) :: b

/-- `while (absvalue) { result.push_back(absvalue & 0xff); absvalue >>= 8; }` on a 64-bit word. -/
def absBytes : Nat → Nat → List UInt8
  | 0, _ => []
  | k + 1, n => if n = 0 then [] else UInt8.ofNat n :: absBytes k (n / 256)

/-- The sign bit of `CScriptNum::serialize`: set in the last byte, or in a byte of its own. -/
def setSign (neg : Bool) : List UInt8 → List UInt8
  | [] => []
  | [b] => if b &&& 0x80 ≠ 0 then [b, if neg then 0x80 else 0] else if neg then [b ||| 0x80] else [b]
  | b :: c :: rest => b :: setSign neg (c :: rest)

/-- `CScriptNum::serialize`. -/
def serializeScriptNum (value : Int) : List UInt8 :=
  if value = 0 then [] else setSign (decide (value < 0)) (absBytes 8 value.natAbs)

def pushInt64 (n : Int) : CScript :=
  if n = -1 ∨ 1 ≤ n ∧ n ≤ 16 then [UInt8.ofNat (n + 0x50).toNat]
  else if n = 0 then [OP_0]
  else pushData (serializeScriptNum n)

/-- Bytes as a little-endian number. -/
def leNat : List UInt8 → Nat
  | [] => 0
  | b :: rest => b.toNat + 256 * leNat rest

def setVch (vch : List UInt8) : Int :=
  match vch.getLast? with
  | none => 0
  | some msb =>
    if msb &&& 0x80 ≠ 0 then -((leNat vch : Int) - 0x80 * 256 ^ (vch.length - 1)) else leNat vch

/-- The minimality test of the `CScriptNum` constructor. -/
def isMinimalNum (vch : List UInt8) : Bool :=
  match vch.reverse with
  | [] => true
  | msb :: rest =>
    if msb &&& 0x7f = 0 then
      match rest with
      | [] => false
      | next :: _ => decide (next &&& 0x80 ≠ 0)
    else true

/-- `CScriptNum(vch, fRequireMinimal, nMaxNumSize)`; `none` where the source throws `scriptnum_error`. -/
def scriptNum (vch : List UInt8) (fRequireMinimal : Bool) (nMaxNumSize : Nat) : Option Int :=
  if vch.length > nMaxNumSize then none
  else if fRequireMinimal && !isMinimalNum vch then none
  else some (setVch vch)

def getint (n : Int) : Int :=
  if n > 2147483647 then 2147483647 else if n < -2147483648 then -2147483648 else n

/-! ### Numbers read back -/

theorem leNat_absBytes : ∀ {k n : Nat}, n < 256 ^ k → leNat (absBytes k n) = n := by
  intro k
  induction k with
  | zero =>
    intro n hn
    simp only [absBytes, leNat]
    omega
  | succ k ih =>
    intro n hn
    simp only [absBytes]
    split
    · rename_i h0
      rw [h0]
      rfl
    · have hdiv : n / 256 < 256 ^ k := by
        omega
      simp only [leNat, ih hdiv, UInt8.toNat_ofNat']
      omega

theorem absBytes_length_le (k n : Nat) : (absBytes k n).length ≤ k := by
  induction k generalizing n with
  | zero => simp [absBytes]
  | succ k ih =>
    simp only [absBytes]
    split
    · simp
    · have := ih (n / 256)
      simp only [List.length_cons]
      omega

theorem setSign_false (l : List UInt8) :
    leNat (setSign false l) = leNat l ∧ (setSign false l).length ≤ l.length + 1 ∧
      ∀ msb, (setSign false l).getLast? = some msb → ¬ (msb &&& 0x80 ≠ 0) := by
  induction l with
  | nil => simp [setSign, leNat]
  | cons b rest ih =>
    cases rest with
    | nil =>
      simp only [setSign]
      split
      · simp [leNat]
      · rename_i hb
        refine ⟨rfl, by simp, ?_⟩
        intro msb hmsb
        simp only [Bool.false_eq_true, if_false, List.getLast?_singleton, Option.some.injEq] at hmsb
        rw [← hmsb]
        exact hb
    | cons c rest =>
      obtain ⟨hnat, hlen, hlast⟩ := ih
      simp only [setSign]
      refine ⟨by simp only [leNat] at hnat ⊢; rw [hnat], by simp only [List.length_cons] at hlen ⊢; omega, ?_⟩
      intro msb hmsb
      apply hlast
      cases hs : setSign false (c :: rest) with
      | nil =>
        rw [setSign.eq_def] at hs
        grind
      | cons d ds => rw [hs, List.getLast?_cons_cons] at hmsb; exact hmsb

/-- **A number that is pushed is read back**, if it is not negative and fits the word. -/
theorem setVch_serialize {n : Int} (h0 : 0 ≤ n) (hmax : n < 18446744073709551616) :
    setVch (serializeScriptNum n) = n := by
  unfold serializeScriptNum
  split
  · rename_i hz
    rw [hz]
    rfl
  · obtain ⟨hnat, -, hlast⟩ := setSign_false (absBytes 8 n.natAbs)
    rw [leNat_absBytes (by omega)] at hnat
    rw [decide_eq_false (by omega : ¬ n < 0)]
    unfold setVch
    split
    · rename_i hnone
      rw [List.getLast?_eq_none_iff.mp hnone] at hnat
      simp only [leNat] at hnat
      omega
    · rename_i msb hmsb
      rw [if_neg (hlast msb hmsb), hnat]
      omega

theorem serializeScriptNum_length {n : Int} (h0 : 0 ≤ n) : (serializeScriptNum n).length ≤ 9 := by
  unfold serializeScriptNum
  split
  · simp
  · obtain ⟨-, hlen, -⟩ := setSign_false (absBytes 8 n.natAbs)
    have := absBytes_length_le 8 n.natAbs
    rw [decide_eq_false (by omega : ¬ n < 0)]
    omega

theorem pushInt64_eq {n : Int} (h16 : 16 < n) :
    pushInt64 n = UInt8.ofNat (serializeScriptNum n).length :: serializeScriptNum n := by
  have hlen := @serializeScriptNum_length n (by omega)
  have h75 : (serializeScriptNum n).length < OP_PUSHDATA1.toNat := by
    show _ < 76
    omega
  rw [pushInt64, if_neg (by omega), if_neg (by omega), pushData, if_pos h75]

/-- **Pushed numbers are prefix free**: a script starts with at most one positive number. -/
theorem pushInt64_isPrefix_inj {m n : Int} {s : CScript} (hm : 1 ≤ m) (hn : 1 ≤ n) (hmmax : m < 18446744073709551616)
    (hnmax : n < 18446744073709551616) (hms : pushInt64 m <+: s) (hns : pushInt64 n <+: s) : m = n := by
  -- the first byte is an opcode from 81 on for a small number, and a length of at most 9 otherwise
  have hfirst : ∀ k : Int, 1 ≤ k → pushInt64 k <+: s →
      (k ≤ 16 ∧ s.head?.map UInt8.toNat = some (k.toNat + 80)) ∨
      (16 < k ∧ s.head?.map UInt8.toNat = some (serializeScriptNum k).length ∧
        (serializeScriptNum k).length ≤ 9 ∧ serializeScriptNum k <+: s.tail) := by
    intro k hk hks
    obtain ⟨rest, rfl⟩ := hks
    by_cases h16 : k ≤ 16
    · refine .inl ⟨h16, ?_⟩
      rw [pushInt64, if_pos (.inr ⟨hk, h16⟩)]
      simp only [List.singleton_append, List.head?_cons, Option.map_some, UInt8.toNat_ofNat', Option.some.injEq]
      omega
    · have hlen := @serializeScriptNum_length k (by omega)
      refine .inr ⟨by omega, ?_, hlen, ?_⟩
      · rw [pushInt64_eq (by omega)]
        simp only [List.cons_append, List.head?_cons, Option.map_some, UInt8.toNat_ofNat', Option.some.injEq]
        omega
      · rw [pushInt64_eq (by omega), List.cons_append, List.tail_cons]
        exact List.prefix_append _ _
  rcases hfirst m hm hms with ⟨hm16, hmh⟩ | ⟨hm16, hmh, hmlen, hmp⟩ <;>
    rcases hfirst n hn hns with ⟨hn16, hnh⟩ | ⟨hn16, hnh, hnlen, hnp⟩
  · rw [hmh, Option.some.injEq] at hnh
    omega
  · rw [hmh, Option.some.injEq] at hnh
    omega
  · rw [hmh, Option.some.injEq] at hnh
    omega
  · rw [hmh, Option.some.injEq] at hnh
    have hsame : serializeScriptNum m = serializeScriptNum n :=
      (List.prefix_of_prefix_length_le hmp hnp (by omega)).eq_of_length hnh
    rw [← @setVch_serialize m (by omega) hmmax, hsame, @setVch_serialize n (by omega) hnmax]

/-! ## Templates and walks -/

/-- `CScript::DecodeOP_N` on `OP_1` to `OP_16`. -/
def decodeOpN (opcode : UInt8) : Nat := if opcode = OP_0 then 0 else opcode.toNat - (OP_1.toNat - 1)

/-- The loop of `CScript::GetSigOpCount(bool)`; `fuel` bounds the number of operations. -/
def sigOpLoop (fAccurate : Bool) : Nat → UInt8 → CScript → Nat
  | 0, _, _ => 0
  | fuel + 1, lastOpcode, pc =>
    match getOp pc with
    | none => 0
    | some (opcode, _, pc) =>
      (if opcode = OP_CHECKSIG ∨ opcode = OP_CHECKSIGVERIFY then 1
        else if opcode = OP_CHECKMULTISIG ∨ opcode = OP_CHECKMULTISIGVERIFY then
          if fAccurate ∧ OP_1 ≤ lastOpcode ∧ lastOpcode ≤ OP_16 then decodeOpN lastOpcode
          else MAX_PUBKEYS_PER_MULTISIG
        else 0) + sigOpLoop fAccurate fuel opcode pc

/-- The loop of `CScript::IsPushOnly`. -/
def pushOnlyLoop : Nat → CScript → Bool
  | _, [] => true
  | 0, _ :: _ => false
  | fuel + 1, b :: pc =>
    match getOp (b :: pc) with
    | none => false
    | some (opcode, _, pc) => if opcode > OP_16 then false else pushOnlyLoop fuel pc

/-- The last element a push-only script leaves, for `GetSigOpCount(const CScript&)`. -/
def lastPushLoop : Nat → List UInt8 → CScript → Option (List UInt8)
  | _, data, [] => some data
  | 0, _, _ :: _ => none
  | fuel + 1, _, b :: pc =>
    match getOp (b :: pc) with
    | none => none
    | some (opcode, data, pc) => if opcode > OP_16 then none else lastPushLoop fuel data pc

namespace CScript

def getSigOpCount (s : CScript) (fAccurate : Bool) : Nat := sigOpLoop fAccurate s.length 0xff s

def isPushOnly (s : CScript) : Bool := pushOnlyLoop s.length s

def isPayToPublicKeyHash (s : CScript) : Bool :=
  s.length == 25 && s[0]? == some OP_DUP && s[1]? == some OP_HASH160 && s[2]? == some 0x14 &&
    s[23]? == some OP_EQUALVERIFY && s[24]? == some OP_CHECKSIG

def isPayToScriptHash (s : CScript) : Bool :=
  s.length == 23 && s[0]? == some OP_HASH160 && s[1]? == some 0x14 && s[22]? == some OP_EQUAL

def isPayToColdStaking (s : CScript) : Bool :=
  s.length == 51 && s[0]? == some OP_DUP && s[1]? == some OP_HASH160 && s[2]? == some OP_ROT &&
    s[3]? == some OP_IF &&
    (s[4]? == some OP_CHECKCOLDSTAKEVERIFY || s[4]? == some OP_CHECKCOLDSTAKEVERIFY_LOF) &&
    s[5]? == some 0x14 && s[26]? == some OP_ELSE && s[27]? == some 0x14 &&
    s[48]? == some OP_ENDIF && s[49]? == some OP_EQUALVERIFY && s[50]? == some OP_CHECKSIG

def isPayToColdStakingLOF (s : CScript) : Bool :=
  s.isPayToColdStaking && s[4]? == some OP_CHECKCOLDSTAKEVERIFY_LOF

def isPayToExchangeAddress (s : CScript) : Bool :=
  s.length == 26 && s[0]? == some OP_EXCHANGEADDR && s[1]? == some OP_DUP &&
    s[2]? == some OP_HASH160 && s[3]? == some 0x14 && s[24]? == some OP_EQUALVERIFY &&
    s[25]? == some OP_CHECKSIG

def startsWithOpcode (s : CScript) (opcode : UInt8) : Bool := s.head? == some opcode

def isZerocoinMint (s : CScript) : Bool := s.startsWithOpcode OP_ZEROCOINMINT

def isZerocoinSpend (s : CScript) : Bool := s.startsWithOpcode OP_ZEROCOINSPEND

def isZerocoinPublicSpend (s : CScript) : Bool := s.startsWithOpcode OP_ZEROCOINPUBLICSPEND

def isUnspendable (s : CScript) : Bool :=
  s.startsWithOpcode OP_RETURN || decide (s.length > MAX_SCRIPT_SIZE)

/-- `CScript::GetSigOpCount(const CScript& scriptSig)`. -/
def getSigOpCountP2SH (s scriptSig : CScript) : Nat :=
  if !s.isPayToScriptHash then s.getSigOpCount true
  else
    match lastPushLoop scriptSig.length [] scriptSig with
    | none => 0
    | some data => getSigOpCount data true

end CScript

end KrovaCoin
