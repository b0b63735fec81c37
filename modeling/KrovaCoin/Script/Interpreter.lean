import KrovaCoin.Crypto

/-!
# Script execution (`script/interpreter.cpp`, `script/script_error.h`)

A stack is a list with its top first, the vector of condition flags a list with the innermost flag first. The program
counter and the start of the signed code are the rest of the script from there on.

* `BaseSignatureChecker` / `transactionSignatureChecker` — the checks that look at a transaction.
* `verifyScript` — `VerifyScript`.
-/

namespace KrovaCoin

open Lib

/-- `ScriptError`; `ASSERTION` is a failed `assert`, which the source has no code for. -/
inductive ScriptError where
  | UNKNOWN_ERROR | EVAL_FALSE | OP_RETURN
  | SCRIPT_SIZE | PUSH_SIZE | OP_COUNT | STACK_SIZE | SIG_COUNT | PUBKEY_COUNT
  | VERIFY | EQUALVERIFY | EXCHANGEADDRVERIFY | CHECKCOLDSTAKEVERIFY | CHECKMULTISIGVERIFY
  | CHECKSIGVERIFY | NUMEQUALVERIFY
  | BAD_OPCODE | DISABLED_OPCODE | INVALID_STACK_OPERATION | INVALID_ALTSTACK_OPERATION
  | UNBALANCED_CONDITIONAL
  | NEGATIVE_LOCKTIME | UNSATISFIED_LOCKTIME
  | SIG_HASHTYPE | SIG_DER | MINIMALDATA | SIG_PUSHONLY | SIG_HIGH_S | SIG_NULLDUMMY | PUBKEYTYPE
  | CLEANSTACK
  | DISCOURAGE_UPGRADABLE_NOPS
  | ASSERTION
  deriving DecidableEq, Repr

def scriptErrorString : ScriptError → String
  | .EVAL_FALSE => "Script evaluated without error but finished with a false/empty top stack element"
  | .VERIFY => "Script failed an OP_VERIFY operation"
  | .EQUALVERIFY => "Script failed an OP_EQUALVERIFY operation"
  | .EXCHANGEADDRVERIFY => "Script failed OP_EXCHANGEADDR operation"
  | .CHECKCOLDSTAKEVERIFY => "Script failed an OP_CHECKCOLDSTAKEVERIFY operation"
  | .CHECKMULTISIGVERIFY => "Script failed an OP_CHECKMULTISIGVERIFY operation"
  | .CHECKSIGVERIFY => "Script failed an OP_CHECKSIGVERIFY operation"
  | .NUMEQUALVERIFY => "Script failed an OP_NUMEQUALVERIFY operation"
  | .SCRIPT_SIZE => "Script is too big"
  | .PUSH_SIZE => "Push value size limit exceeded"
  | .OP_COUNT => "Operation limit exceeded"
  | .STACK_SIZE => "Stack size limit exceeded"
  | .SIG_COUNT => "Signature count negative or greater than pubkey count"
  | .PUBKEY_COUNT => "Pubkey count negative or limit exceeded"
  | .BAD_OPCODE => "Opcode missing or not understood"
  | .DISABLED_OPCODE => "Attempted to use a disabled opcode"
  | .INVALID_STACK_OPERATION => "Operation not valid with the current stack size"
  | .INVALID_ALTSTACK_OPERATION => "Operation not valid with the current altstack size"
  | .OP_RETURN => "OP_RETURN was encountered"
  | .UNBALANCED_CONDITIONAL => "Invalid OP_IF construction"
  | .NEGATIVE_LOCKTIME => "Negative locktime"
  | .UNSATISFIED_LOCKTIME => "Locktime requirement not satisfied"
  | .SIG_HASHTYPE => "Signature hash type missing or not understood"
  | .SIG_DER => "Non-canonical DER signature"
  | .MINIMALDATA => "Data push larger than necessary"
  | .SIG_PUSHONLY => "Only non-push operators allowed in signatures"
  | .SIG_HIGH_S => "Non-canonical signature: S value is unnecessarily high"
  | .SIG_NULLDUMMY => "Dummy CHECKMULTISIG argument must be zero"
  | .DISCOURAGE_UPGRADABLE_NOPS => "NOPx reserved for soft-fork upgrades"
  | .PUBKEYTYPE => "Public key is neither compressed or uncompressed"
  | _ => "unknown error"

/-! ## Flags -/

def SCRIPT_VERIFY_P2SH : UInt32 := 0x1
def SCRIPT_VERIFY_STRICTENC : UInt32 := 0x2
def SCRIPT_VERIFY_DERSIG : UInt32 := 0x4
def SCRIPT_VERIFY_LOW_S : UInt32 := 0x8
def SCRIPT_VERIFY_NULLDUMMY : UInt32 := 0x10
def SCRIPT_VERIFY_SIGPUSHONLY : UInt32 := 0x20
def SCRIPT_VERIFY_MINIMALDATA : UInt32 := 0x40
def SCRIPT_VERIFY_DISCOURAGE_UPGRADABLE_NOPS : UInt32 := 0x80
def SCRIPT_VERIFY_CLEANSTACK : UInt32 := 0x100
def SCRIPT_VERIFY_CHECKLOCKTIMEVERIFY : UInt32 := 0x200
def SCRIPT_VERIFY_EXCHANGEADDR : UInt32 := 0x400

def MANDATORY_SCRIPT_VERIFY_FLAGS : UInt32 := SCRIPT_VERIFY_P2SH

/-- `STANDARD_SCRIPT_VERIFY_FLAGS` (`policy/policy.h`). -/
def STANDARD_SCRIPT_VERIFY_FLAGS : UInt32 :=
  MANDATORY_SCRIPT_VERIFY_FLAGS ||| SCRIPT_VERIFY_DERSIG ||| SCRIPT_VERIFY_STRICTENC |||
    SCRIPT_VERIFY_MINIMALDATA ||| SCRIPT_VERIFY_NULLDUMMY |||
    SCRIPT_VERIFY_DISCOURAGE_UPGRADABLE_NOPS ||| SCRIPT_VERIFY_CLEANSTACK ||| SCRIPT_VERIFY_LOW_S |||
    SCRIPT_VERIFY_EXCHANGEADDR

/-- `flags & flag`, read as a condition. -/
def hasFlag (flags flag : UInt32) : Bool := flags &&& flag != 0

/-- `SIGHASH_ALL`, `SIGHASH_SINGLE` and the bit `SIGHASH_ANYONECANPAY`. -/
def SIGHASH_ALL : UInt8 := 1
def SIGHASH_SINGLE : UInt8 := 3
def SIGHASH_ANYONECANPAY : UInt8 := 0x80

/-! ## Encodings -/

/-- `CastToBool`: some byte is not zero, and the value is not a negative zero. -/
def castToBool : List UInt8 → Bool
  | [] => false
  | [b] => b != 0 && b != 0x80
  | b :: c :: rest => b != 0 || castToBool (c :: rest)

def isCompressedOrUncompressedPubKey (vchPubKey : List UInt8) : Bool :=
  if vchPubKey.length < COMPRESSED_PUBLIC_KEY_SIZE then false
  else if vchPubKey.head? = some 0x04 then vchPubKey.length == PUBLIC_KEY_SIZE
  else if vchPubKey.head? = some 0x02 ∨ vchPubKey.head? = some 0x03 then
    vchPubKey.length == COMPRESSED_PUBLIC_KEY_SIZE
  else false

/-- `IsValidSignatureEncoding`: the strict DER form, with the byte of the hash type after it. -/
def isValidSignatureEncoding (sig : List UInt8) : Bool :=
  let lenR := (sig.getD 3 0).toNat
  let lenS := (sig.getD (5 + lenR) 0).toNat
  if sig.length < 9 then false
  else if sig.length > 73 then false
  else if sig.getD 0 0 ≠ 0x30 then false
  else if (sig.getD 1 0).toNat ≠ sig.length - 3 then false
  else if 5 + lenR ≥ sig.length then false
  else if lenR + lenS + 7 ≠ sig.length then false
  else if sig.getD 2 0 ≠ 0x02 then false
  else if lenR = 0 then false
  else if sig.getD 4 0 &&& 0x80 ≠ 0 then false
  else if lenR > 1 ∧ sig.getD 4 0 = 0x00 ∧ sig.getD 5 0 &&& 0x80 = 0 then false
  else if sig.getD (lenR + 4) 0 ≠ 0x02 then false
  else if lenS = 0 then false
  else if sig.getD (lenR + 6) 0 &&& 0x80 ≠ 0 then false
  else if lenS > 1 ∧ sig.getD (lenR + 6) 0 = 0x00 ∧ sig.getD (lenR + 7) 0 &&& 0x80 = 0 then false
  else true

def isLowDERSignature (c : Crypto) (vchSig : List UInt8) : Except ScriptError Unit :=
  if !isValidSignatureEncoding vchSig then .error .SIG_DER
  else rejectIf (!c.checkLowS vchSig.dropLast) .SIG_HIGH_S

def isDefinedHashtypeSignature (vchSig : List UInt8) : Bool :=
  match vchSig.getLast? with
  | none => false
  | some b =>
    let nHashType := b &&& ~~~SIGHASH_ANYONECANPAY
    !(decide (nHashType < SIGHASH_ALL) || decide (nHashType > SIGHASH_SINGLE))

def checkSignatureEncoding (c : Crypto) (vchSig : List UInt8) (flags : UInt32) : Except ScriptError Unit :=
  if vchSig.isEmpty then .ok ()
  else do
    rejectIf (hasFlag flags (SCRIPT_VERIFY_DERSIG ||| SCRIPT_VERIFY_LOW_S ||| SCRIPT_VERIFY_STRICTENC) &&
      !isValidSignatureEncoding vchSig) .SIG_DER
    if hasFlag flags SCRIPT_VERIFY_LOW_S then isLowDERSignature c vchSig else .ok ()
    rejectIf (hasFlag flags SCRIPT_VERIFY_STRICTENC && !isDefinedHashtypeSignature vchSig)
      .SIG_HASHTYPE

def checkPubKeyEncoding (vchPubKey : List UInt8) (flags : UInt32) : Except ScriptError Unit :=
  rejectIf (hasFlag flags SCRIPT_VERIFY_STRICTENC && !isCompressedOrUncompressedPubKey vchPubKey)
    .PUBKEYTYPE

def checkMinimalPush (data : List UInt8) (opcode : UInt8) : Bool :=
  match data with
  | [] => opcode == OP_0
  | [b] =>
    if 1 ≤ b ∧ b ≤ 16 then opcode == OP_1 + (b - 1)
    else if b = 0x81 then opcode == OP_1NEGATE
    else opcode == 1
  | _ =>
    if data.length ≤ 75 then opcode.toNat == data.length
    else if data.length ≤ 255 then opcode == OP_PUSHDATA1
    else if data.length ≤ 65535 then opcode == OP_PUSHDATA2
    else true

/-- The inner loop of `CScript::FindAndDelete`: skip the copies of `b` that start here. -/
def skipCopies (b : CScript) : Nat → CScript → CScript
  | 0, pc => pc
  | fuel + 1, pc => if b.isPrefixOf pc then skipCopies b fuel (pc.drop b.length) else pc

/-- The outer loop of `CScript::FindAndDelete`: `pc` is the position, `pc2` the end of the last
    match or the start of the last operation. -/
def findAndDeleteLoop (b : CScript) : Nat → CScript → CScript → CScript
  | 0, pc2, _ => pc2
  | fuel + 1, pc2, pc =>
    let pc' := skipCopies b pc.length pc
    pc2.take (pc2.length - pc.length) ++
      match getOp pc' with
      | none => pc'
      | some (_, _, rest) => findAndDeleteLoop b fuel pc' rest

/-- `CScript::FindAndDelete`: the script that is left. -/
def CScript.findAndDelete (s b : CScript) : CScript :=
  if b.isEmpty then s else findAndDeleteLoop b (s.length + 1) s s

/-! ## Checks that look at a transaction -/

structure BaseSignatureChecker where
  checkSig : List UInt8 → List UInt8 → CScript → SigVersion → Bool
  checkLockTime : Int → Bool
  checkColdStake : Bool → CScript → List (List UInt8) → UInt32 → Except ScriptError Unit

/-- What `EvalScript` is called with, besides the stack. -/
structure EvalContext where
  crypto : Crypto
  checker : BaseSignatureChecker
  flags : UInt32
  sigversion : SigVersion
  script : CScript

/-- The local variables of `EvalScript`, without the program counter. -/
structure EvalState where
  pbegincodehash : CScript
  stack : List (List UInt8)
  altstack : List (List UInt8)
  vfExec : List Bool
  nOpCount : Nat
  deriving DecidableEq, Repr

/-- `vchTrue` and `vchFalse`. -/
def vchBool (b : Bool) : List UInt8 := if b then [1] else []

def EvalContext.fRequireMinimal (ctx : EvalContext) : Bool := hasFlag ctx.flags SCRIPT_VERIFY_MINIMALDATA

/-- `CScriptNum(vch, fRequireMinimal)`; the exception ends in the `catch` of `EvalScript`. -/
def EvalContext.num (ctx : EvalContext) (vch : List UInt8) : Except ScriptError Int :=
  match scriptNum vch ctx.fRequireMinimal 4 with
  | none => .error .UNKNOWN_ERROR
  | some n => .ok n

/-! ## Operations -/

/-- The opcodes that fail wherever they stand. -/
def isDisabledOpcode (opcode : UInt8) : Bool :=
  [OP_CAT, OP_SUBSTR, OP_LEFT, OP_RIGHT, OP_INVERT, OP_AND, OP_OR, OP_XOR, OP_2MUL, OP_2DIV, OP_MUL,
    OP_DIV, OP_MOD, OP_LSHIFT, OP_RSHIFT].contains opcode

/-- `OP_TOALTSTACK` to `OP_SIZE`, without `OP_PICK` and `OP_ROLL`: what the opcode does to the two
    stacks; `none` for other opcodes. -/
def stackOp (opcode : UInt8) (stack altstack : List (List UInt8)) :
    Option (Except ScriptError (List (List UInt8) × List (List UInt8))) :=
  let onStack (r : Option (List (List UInt8))) :
      Option (Except ScriptError (List (List UInt8) × List (List UInt8))) :=
    match r with
    | none => some (.error .INVALID_STACK_OPERATION)
    | some st => some (.ok (st, altstack))
  if opcode = OP_TOALTSTACK then
    match stack with
    | x :: st => some (.ok (st, x :: altstack))
    | [] => some (.error .INVALID_STACK_OPERATION)
  else if opcode = OP_FROMALTSTACK then
    match altstack with
    | x :: alt => some (.ok (x :: stack, alt))
    | [] => some (.error .INVALID_ALTSTACK_OPERATION)
  else if opcode = OP_2DROP then
    onStack (match stack with | _ :: _ :: st => some st | _ => none)
  else if opcode = OP_2DUP then
    onStack (match stack with | x2 :: x1 :: st => some (x2 :: x1 :: x2 :: x1 :: st) | _ => none)
  else if opcode = OP_3DUP then
    onStack (match stack with
      | x3 :: x2 :: x1 :: st => some (x3 :: x2 :: x1 :: x3 :: x2 :: x1 :: st) | _ => none)
  else if opcode = OP_2OVER then
    onStack (match stack with
      | x4 :: x3 :: x2 :: x1 :: st => some (x2 :: x1 :: x4 :: x3 :: x2 :: x1 :: st) | _ => none)
  else if opcode = OP_2ROT then
    onStack (match stack with
      | x6 :: x5 :: x4 :: x3 :: x2 :: x1 :: st => some (x2 :: x1 :: x6 :: x5 :: x4 :: x3 :: st)
      | _ => none)
  else if opcode = OP_2SWAP then
    onStack (match stack with
      | x4 :: x3 :: x2 :: x1 :: st => some (x2 :: x1 :: x4 :: x3 :: st) | _ => none)
  else if opcode = OP_IFDUP then
    onStack (match stack with
      | x :: st => some (if castToBool x then x :: x :: st else x :: st) | _ => none)
  else if opcode = OP_DEPTH then onStack (some (serializeScriptNum stack.length :: stack))
  else if opcode = OP_DROP then onStack (match stack with | _ :: st => some st | _ => none)
  else if opcode = OP_DUP then onStack (match stack with | x :: st => some (x :: x :: st) | _ => none)
  else if opcode = OP_NIP then
    onStack (match stack with | x2 :: _ :: st => some (x2 :: st) | _ => none)
  else if opcode = OP_OVER then
    onStack (match stack with | x2 :: x1 :: st => some (x1 :: x2 :: x1 :: st) | _ => none)
  else if opcode = OP_ROT then
    onStack (match stack with | x3 :: x2 :: x1 :: st => some (x1 :: x3 :: x2 :: st) | _ => none)
  else if opcode = OP_SWAP then
    onStack (match stack with | x2 :: x1 :: st => some (x1 :: x2 :: st) | _ => none)
  else if opcode = OP_TUCK then
    onStack (match stack with | x2 :: x1 :: st => some (x2 :: x1 :: x2 :: st) | _ => none)
  else if opcode = OP_SIZE then
    onStack (match stack with | x :: st => some (serializeScriptNum x.length :: x :: st) | _ => none)
  else none

def unaryNum (opcode : UInt8) (bn : Int) : Option Int :=
  if opcode = OP_1ADD then some (bn + 1)
  else if opcode = OP_1SUB then some (bn - 1)
  else if opcode = OP_NEGATE then some (-bn)
  else if opcode = OP_ABS then some (if bn < 0 then -bn else bn)
  else if opcode = OP_NOT then some (if bn = 0 then 1 else 0)
  else if opcode = OP_0NOTEQUAL then some (if bn ≠ 0 then 1 else 0)
  else none

def binaryNum (opcode : UInt8) (bn1 bn2 : Int) : Option Int :=
  if opcode = OP_ADD then some (bn1 + bn2)
  else if opcode = OP_SUB then some (bn1 - bn2)
  else if opcode = OP_BOOLAND then some (if bn1 ≠ 0 ∧ bn2 ≠ 0 then 1 else 0)
  else if opcode = OP_BOOLOR then some (if bn1 ≠ 0 ∨ bn2 ≠ 0 then 1 else 0)
  else if opcode = OP_NUMEQUAL then some (if bn1 = bn2 then 1 else 0)
  else if opcode = OP_NUMEQUALVERIFY then some (if bn1 = bn2 then 1 else 0)
  else if opcode = OP_NUMNOTEQUAL then some (if bn1 ≠ bn2 then 1 else 0)
  else if opcode = OP_LESSTHAN then some (if bn1 < bn2 then 1 else 0)
  else if opcode = OP_GREATERTHAN then some (if bn1 > bn2 then 1 else 0)
  else if opcode = OP_LESSTHANOREQUAL then some (if bn1 ≤ bn2 then 1 else 0)
  else if opcode = OP_GREATERTHANOREQUAL then some (if bn1 ≥ bn2 then 1 else 0)
  else if opcode = OP_MIN then some (if bn1 < bn2 then bn1 else bn2)
  else if opcode = OP_MAX then some (if bn1 > bn2 then bn1 else bn2)
  else none

def hashOp (c : Crypto) (opcode : UInt8) (vch : List UInt8) : Option (List UInt8) :=
  if opcode = OP_RIPEMD160 then some (c.ripemd160 vch).toList
  else if opcode = OP_SHA1 then some (c.sha1 vch).toList
  else if opcode = OP_SHA256 then some (c.sha256 vch).toList
  else if opcode = OP_HASH160 then some (c.hash160 vch)
  else if opcode = OP_HASH256 then some (c.hash256 vch)
  else none

/-- The signature and key encodings a `CHECKSIG` requires. -/
def EvalContext.checkEncodings (ctx : EvalContext) (vchSig vchPubKey : List UInt8) : Except ScriptError Unit := do
  checkSignatureEncoding ctx.crypto vchSig ctx.flags
  checkPubKeyEncoding vchPubKey ctx.flags

/-- The loop of `OP_CHECKMULTISIG` over the signatures and keys that are left. -/
def multisigLoop (ctx : EvalContext) (scriptCode : CScript) :
    List (List UInt8) → List (List UInt8) → Except ScriptError Bool
  | [], _ => .ok true
  | _ :: _, [] => .ok false
  | vchSig :: sigs, vchPubKey :: keys => do
    ctx.checkEncodings vchSig vchPubKey
    let left :=
      if ctx.checker.checkSig vchSig vchPubKey scriptCode ctx.sigversion then sigs else vchSig :: sigs
    if left.length > keys.length then .ok false else multisigLoop ctx scriptCode left keys

/-- `OP_CHECKMULTISIG`: the success flag, the stack below the arguments and the operation count. -/
def checkMultisig (ctx : EvalContext) (s : EvalState) : Except ScriptError (Bool × List (List UInt8) × Nat) :=
  match s.stack with
  | [] => .error .INVALID_STACK_OPERATION
  | top :: below => do
    let nKeysCount := getint (← ctx.num top)
    rejectIf (decide (nKeysCount < 0 ∨ nKeysCount > MAX_PUBKEYS_PER_MULTISIG)) .PUBKEY_COUNT
    let nKeys := nKeysCount.toNat
    let nOpCount := s.nOpCount + nKeys
    rejectIf (decide (nOpCount > 201)) .OP_COUNT
    match below.drop nKeys with
    | [] => .error .INVALID_STACK_OPERATION
    | sigCount :: rest =>
      let nSigsCount := getint (← ctx.num sigCount)
      rejectIf (decide (nSigsCount < 0 ∨ nSigsCount > nKeysCount)) .SIG_COUNT
      let nSigs := nSigsCount.toNat
      rejectIf (decide (rest.length < nSigs)) .INVALID_STACK_OPERATION
      let scriptCode := (rest.take nSigs).foldl (fun code sig => code.findAndDelete (pushData sig))
        s.pbegincodehash
      let fSuccess ← multisigLoop ctx scriptCode (rest.take nSigs) (below.take nKeys)
      -- the element below the signatures is consumed too
      match rest.drop nSigs with
      | [] => .error .INVALID_STACK_OPERATION
      | dummy :: st =>
        rejectIf (hasFlag ctx.flags SCRIPT_VERIFY_NULLDUMMY && !dummy.isEmpty) .SIG_NULLDUMMY
        .ok (fSuccess, st, nOpCount)

/-- Push a truth value, or fail with `e` if the opcode is the verifying form. -/
def pushOrVerify (verifying fValue : Bool) (e : ScriptError) (s : EvalState)
    (stack : List (List UInt8)) : Except ScriptError EvalState :=
  if verifying then if fValue then .ok { s with stack } else .error e
  else .ok { s with stack := vchBool fValue :: stack }

/-- The `switch` of `EvalScript`; `pc` is the script after the opcode. -/
def execOp (ctx : EvalContext) (opcode : UInt8) (fExec : Bool) (pc : CScript) (s : EvalState) :
    Except ScriptError EvalState :=
  if opcode = OP_1NEGATE ∨ OP_1 ≤ opcode ∧ opcode ≤ OP_16 then
    .ok { s with stack := serializeScriptNum ((opcode.toNat : Int) - 0x50) :: s.stack }
  else if opcode = OP_NOP then .ok s
  else if opcode = OP_EXCHANGEADDR then
    if !hasFlag ctx.flags SCRIPT_VERIFY_EXCHANGEADDR then .error .BAD_OPCODE
    else if !ctx.script.isPayToExchangeAddress then .error .EXCHANGEADDRVERIFY
    else .ok s
  else if opcode = OP_CHECKLOCKTIMEVERIFY then
    if !hasFlag ctx.flags SCRIPT_VERIFY_CHECKLOCKTIMEVERIFY then
      if hasFlag ctx.flags SCRIPT_VERIFY_DISCOURAGE_UPGRADABLE_NOPS then
        .error .DISCOURAGE_UPGRADABLE_NOPS
      else .ok s
    else
      match s.stack with
      | [] => .error .INVALID_STACK_OPERATION
      | top :: _ =>
        match scriptNum top ctx.fRequireMinimal 5 with
        | none => .error .UNKNOWN_ERROR
        | some nLockTime =>
          if nLockTime < 0 then .error .NEGATIVE_LOCKTIME
          else if !ctx.checker.checkLockTime nLockTime then .error .UNSATISFIED_LOCKTIME
          else .ok s
  else if opcode = OP_NOP1 ∨ OP_NOP3 ≤ opcode ∧ opcode ≤ OP_NOP10 then
    if hasFlag ctx.flags SCRIPT_VERIFY_DISCOURAGE_UPGRADABLE_NOPS then
      .error .DISCOURAGE_UPGRADABLE_NOPS
    else .ok s
  else if opcode = OP_IF ∨ opcode = OP_NOTIF then
    if fExec then
      match s.stack with
      | [] => .error .UNBALANCED_CONDITIONAL
      | vch :: st =>
        .ok { s with stack := st, vfExec := (castToBool vch != (opcode == OP_NOTIF)) :: s.vfExec }
    else .ok { s with vfExec := false :: s.vfExec }
  else if opcode = OP_ELSE then
    match s.vfExec with
    | [] => .error .UNBALANCED_CONDITIONAL
    | b :: vf => .ok { s with vfExec := (!b) :: vf }
  else if opcode = OP_ENDIF then
    match s.vfExec with
    | [] => .error .UNBALANCED_CONDITIONAL
    | _ :: vf => .ok { s with vfExec := vf }
  else if opcode = OP_VERIFY then
    match s.stack with
    | [] => .error .INVALID_STACK_OPERATION
    | x :: st => if castToBool x then .ok { s with stack := st } else .error .VERIFY
  else if opcode = OP_RETURN then .error .OP_RETURN
  else if opcode = OP_PICK ∨ opcode = OP_ROLL then
    match s.stack with
    | top :: x :: st => do
      let n := getint (← ctx.num top)
      match (if n < 0 then none else (x :: st)[n.toNat]?) with
      | none => .error .INVALID_STACK_OPERATION
      | some vch =>
        .ok { s with stack :=
          vch :: if opcode = OP_ROLL then (x :: st).eraseIdx n.toNat else x :: st }
    | _ => .error .INVALID_STACK_OPERATION
  else if opcode = OP_EQUAL ∨ opcode = OP_EQUALVERIFY then
    match s.stack with
    | vch2 :: vch1 :: st => pushOrVerify (opcode == OP_EQUALVERIFY) (vch1 == vch2) .EQUALVERIFY s st
    | _ => .error .INVALID_STACK_OPERATION
  else if opcode = OP_WITHIN then
    match s.stack with
    | x3 :: x2 :: x1 :: st => do
      let bn1 ← ctx.num x1
      let bn2 ← ctx.num x2
      let bn3 ← ctx.num x3
      .ok { s with stack := vchBool (decide (bn2 ≤ bn1 ∧ bn1 < bn3)) :: st }
    | _ => .error .INVALID_STACK_OPERATION
  else if opcode = OP_CODESEPARATOR then .ok { s with pbegincodehash := pc }
  else if opcode = OP_CHECKSIG ∨ opcode = OP_CHECKSIGVERIFY then
    match s.stack with
    | vchPubKey :: vchSig :: st => do
      let scriptCode := s.pbegincodehash.findAndDelete (pushData vchSig)
      ctx.checkEncodings vchSig vchPubKey
      pushOrVerify (opcode == OP_CHECKSIGVERIFY)
        (ctx.checker.checkSig vchSig vchPubKey scriptCode ctx.sigversion) .CHECKSIGVERIFY s st
    | _ => .error .INVALID_STACK_OPERATION
  else if opcode = OP_CHECKMULTISIG ∨ opcode = OP_CHECKMULTISIGVERIFY then do
    let (fSuccess, st, nOpCount) ← checkMultisig ctx s
    pushOrVerify (opcode == OP_CHECKMULTISIGVERIFY) fSuccess .CHECKMULTISIGVERIFY
      { s with nOpCount } st
  else if opcode = OP_CHECKCOLDSTAKEVERIFY then do
    ctx.checker.checkColdStake false ctx.script s.stack ctx.flags
    .ok s
  else if opcode = OP_CHECKCOLDSTAKEVERIFY_LOF then do
    ctx.checker.checkColdStake true ctx.script s.stack ctx.flags
    .ok s
  else
    match stackOp opcode s.stack s.altstack with
    | some r => r.map fun st => { s with stack := st.1, altstack := st.2 }
    | none =>
      match s.stack with
      | x :: st =>
        match hashOp ctx.crypto opcode x with
        | some vchHash => .ok { s with stack := vchHash :: st }
        | none =>
          if (unaryNum opcode 0).isSome then do
            let bn ← ctx.num x
            .ok { s with stack := serializeScriptNum ((unaryNum opcode bn).getD 0) :: st }
          else if (binaryNum opcode 0 0).isSome then
            match st with
            | [] => .error .INVALID_STACK_OPERATION
            | y :: st => do
              let bn1 ← ctx.num y
              let bn2 ← ctx.num x
              let out := serializeScriptNum ((binaryNum opcode bn1 bn2).getD 0)
              if opcode = OP_NUMEQUALVERIFY then
                if castToBool out then .ok { s with stack := st } else .error .NUMEQUALVERIFY
              else .ok { s with stack := out :: st }
          else .error .BAD_OPCODE
      | [] =>
        if (hashOp ctx.crypto opcode []).isSome ∨ (unaryNum opcode 0).isSome ∨
            (binaryNum opcode 0 0).isSome then .error .INVALID_STACK_OPERATION
        else .error .BAD_OPCODE

/-! ## Evaluation -/

/-- One operation, after it has been read. -/
def evalOp (ctx : EvalContext) (opcode : UInt8) (vchPushValue : List UInt8) (pc : CScript)
    (s : EvalState) : Except ScriptError EvalState :=
  let fExec := s.vfExec.all id
  if fExec ∧ opcode ≤ OP_PUSHDATA4 then
    if ctx.fRequireMinimal && !checkMinimalPush vchPushValue opcode then .error .MINIMALDATA
    else .ok { s with stack := vchPushValue :: s.stack }
  else if fExec ∨ OP_IF ≤ opcode ∧ opcode ≤ OP_ENDIF then execOp ctx opcode fExec pc s
  else .ok s

/-- One iteration of the loop of `EvalScript`: the rest of the script and the new state. -/
def evalStep (ctx : EvalContext) (pc : CScript) (s : EvalState) : Except ScriptError (CScript × EvalState) :=
  match getOp pc with
  | none => .error .BAD_OPCODE
  | some (opcode, vchPushValue, pc) => do
    rejectIf (decide (vchPushValue.length > MAX_SCRIPT_ELEMENT_SIZE)) .PUSH_SIZE
    let nOpCount := if opcode > OP_16 then s.nOpCount + 1 else s.nOpCount
    rejectIf (decide (opcode > OP_16 ∧ nOpCount > 201)) .OP_COUNT
    rejectIf (isDisabledOpcode opcode) .DISABLED_OPCODE
    let s ← evalOp ctx opcode vchPushValue pc { s with nOpCount }
    rejectIf (decide (s.stack.length + s.altstack.length > 1000)) .STACK_SIZE
    .ok (pc, s)

/-- The loop of `EvalScript`; every operation consumes a byte, so the length of the script is enough fuel. -/
def evalLoop (ctx : EvalContext) : Nat → CScript → EvalState → Except ScriptError EvalState
  | _, [], s => .ok s
  | 0, _ :: _, s => .ok s
  | fuel + 1, b :: pc, s =>
    match evalStep ctx (b :: pc) s with
    | .error e => .error e
    | .ok (pc, s) => evalLoop ctx fuel pc s

/-- `EvalScript`: the stack it leaves. -/
def evalScript (ctx : EvalContext) (stack : List (List UInt8)) : Except ScriptError (List (List UInt8)) :=
  if ctx.script.length > MAX_SCRIPT_SIZE then .error .SCRIPT_SIZE
  else
    match evalLoop ctx ctx.script.length ctx.script ⟨ctx.script, stack, [], [], 0⟩ with
    | .error e => .error e
    | .ok s => if s.vfExec.isEmpty then .ok s.stack else .error .UNBALANCED_CONDITIONAL

/-! ## The checks of a transaction -/

/-- `TransactionSignatureChecker::CheckSig`. -/
def txCheckSig (c : Crypto) (txTo : CTransaction) (nIn : Nat) (amount : Int) (vchSigIn : List UInt8)
    (vchPubKey : List UInt8) (scriptCode : CScript) (sigversion : SigVersion) : Bool :=
  let pubkey := CPubKey.ofBytes vchPubKey
  if !pubkey.isValid then false
  else
    match vchSigIn.getLast? with
    | none => false
    | some nHashType =>
      pubkey.verify c (c.signatureHash scriptCode txTo nIn nHashType amount sigversion)
        vchSigIn.dropLast

/-- `TransactionSignatureChecker::CheckLockTime`. -/
def txCheckLockTime (txTo : CTransaction) (nIn : Nat) (nLockTime : Int) : Bool :=
  let txLock : Int := txTo.nLockTime.toNat
  if !(decide (txLock < LOCKTIME_THRESHOLD ∧ nLockTime < LOCKTIME_THRESHOLD) ||
      decide (txLock ≥ LOCKTIME_THRESHOLD ∧ nLockTime ≥ LOCKTIME_THRESHOLD)) then false
  else if nLockTime > txLock then false
  else
    match txTo.vin[nIn]? with
    | none => false
    | some txin => !txin.isFinal

/-- The loop of `CheckColdStake` over the outputs from index `i` on; `outs` is their number. -/
def coldStakeLoop (fAllowLastOutputFree : Bool) (prevoutScript : CScript) (outs : Nat) :
    Nat → Int → List CTxOut → Except ScriptError Int
  | _, outValue, [] => .ok outValue
  | i, outValue, out :: vout =>
    if out.scriptPubKey ≠ prevoutScript then
      if !fAllowLastOutputFree ∨ i ≠ outs - 1 ∨ outs < 3 then .error .CHECKCOLDSTAKEVERIFY
      else coldStakeLoop fAllowLastOutputFree prevoutScript outs (i + 1) outValue vout
    else
      coldStakeLoop fAllowLastOutputFree prevoutScript outs (i + 1) (toInt64 (outValue + out.nValue)) vout

/-- `TransactionSignatureChecker::CheckColdStake`. -/
def txCheckColdStake (c : Crypto) (txTo : CTransaction) (amount : Int) (fAllowLastOutputFree : Bool)
    (prevoutScript : CScript) (stack : List (List UInt8)) (flags : UInt32) :
    Except ScriptError Unit :=
  match stack with
  | [vchPubKeyHash, vchPubKey, vchSig] => do
    checkSignatureEncoding c vchSig flags
    checkPubKeyEncoding vchPubKey flags
    rejectIf (vchPubKeyHash.length != 20) .SCRIPT_SIZE
    rejectIf (!txTo.isCoinStake) .CHECKCOLDSTAKEVERIFY
    rejectIf (txTo.vin.length != 1) .CHECKCOLDSTAKEVERIFY
    let outValue ← coldStakeLoop fAllowLastOutputFree prevoutScript txTo.vout.length 1 0
      (txTo.vout.drop 1)
    rejectIf (decide (outValue < amount)) .CHECKCOLDSTAKEVERIFY
  | _ => .error .INVALID_STACK_OPERATION

def transactionSignatureChecker (c : Crypto) (txTo : CTransaction) (nIn : Nat) (amount : Int) :
    BaseSignatureChecker where
  checkSig := txCheckSig c txTo nIn amount
  checkLockTime := txCheckLockTime txTo nIn
  checkColdStake := txCheckColdStake c txTo amount

/-! ## Verification -/

/-- The top of a final stack has to be true. -/
def checkTop : List (List UInt8) → Except ScriptError Unit
  | [] => .error .EVAL_FALSE
  | x :: _ => if castToBool x then .ok () else .error .EVAL_FALSE

/-- The evaluation of the serialized script of a pay-to-script-hash output, on the stack that the
    `scriptSig` has left. -/
def verifyP2SH (c : Crypto) (scriptSig : CScript) (flags : UInt32) (checker : BaseSignatureChecker)
    (sigversion : SigVersion) (stackCopy : List (List UInt8)) :
    Except ScriptError (List (List UInt8)) := do
  rejectIf (!scriptSig.isPushOnly) .SIG_PUSHONLY
  match stackCopy with
  | [] => .error .ASSERTION
  | pubKeySerialized :: rest =>
    let stack ← evalScript ⟨c, checker, flags, sigversion, pubKeySerialized⟩ rest
    checkTop stack
    .ok stack

def verifyScript (c : Crypto) (scriptSig scriptPubKey : CScript) (flags : UInt32)
    (checker : BaseSignatureChecker) (sigversion : SigVersion) : Except ScriptError Unit := do
  rejectIf (hasFlag flags SCRIPT_VERIFY_SIGPUSHONLY && !scriptSig.isPushOnly) .SIG_PUSHONLY
  let stackCopy ← evalScript ⟨c, checker, flags, sigversion, scriptSig⟩ []
  let stack ← evalScript ⟨c, checker, flags, sigversion, scriptPubKey⟩ stackCopy
  checkTop stack
  let stack ←
    if hasFlag flags SCRIPT_VERIFY_P2SH && scriptPubKey.isPayToScriptHash then
      verifyP2SH c scriptSig flags checker sigversion stackCopy
    else .ok stack
  if hasFlag flags SCRIPT_VERIFY_CLEANSTACK then do
    rejectIf (!hasFlag flags SCRIPT_VERIFY_P2SH) .ASSERTION
    rejectIf (stack.length != 1) .CLEANSTACK
  else .ok ()

end KrovaCoin
