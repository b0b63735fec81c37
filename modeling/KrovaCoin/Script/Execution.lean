import KrovaCoin.Script.Interpreter
import KrovaCoin.Script.Standard

/-!
# What an execution has done

From a successful evaluation back to the operations it ran.

* `evalLoop_step` — one operation of a successful run.
-/

namespace KrovaCoin

open Lib

variable {ctx : EvalContext} {pc : CScript} {op : UInt8} {d : List UInt8} {s : EvalState} {s' : EvalState}

variable {rest : CScript}

theorem evalStep_ok {r : CScript × EvalState} (hop : getOp pc = some (op, d, rest)) (h : evalStep ctx pc s = .ok r) :
    r.1 = rest ∧ ∃ n, evalOp ctx op d rest { s with nOpCount := n } = .ok r.2 := by
  unfold evalStep at h
  rw [hop] at h
  simp only [bind_eq_ok, rejectIf_eq_ok, exists_and_left, exists_const] at h
  obtain ⟨-, -, -, s1, hs1, -, hr⟩ := h
  cases hr
  exact ⟨rfl, _, hs1⟩

variable {fuel : Nat}

theorem evalLoop_step (hop : getOp pc = some (op, d, rest)) (hfuel : pc.length ≤ fuel)
    (h : evalLoop ctx fuel pc s = .ok s') :
    ∃ n s1 fuel', evalOp ctx op d rest { s with nOpCount := n } = .ok s1 ∧ rest.length ≤ fuel' ∧
      evalLoop ctx fuel' rest s1 = .ok s' := by
  have hlen := getOp_length hop
  cases fuel with
  | zero => omega
  | succ fuel =>
    cases pc with
    | nil => simp at hlen
    | cons b pc =>
      simp only [evalLoop] at h
      split at h
      · cases h
      · rename_i pc1 s1 hstep
        obtain ⟨hrest, n, hs1⟩ := evalStep_ok hop hstep
        simp only at hrest hs1
        subst hrest
        exact ⟨n, s1, fuel, hs1, by simp at hfuel hlen; omega, h⟩

/-! ## The last operation -/

/-- The last operation of a script, as `GetOp` walks it: the opcode and its operand. -/
def lastOpLoop : Nat → CScript → Option (UInt8 × List UInt8)
  | 0, _ => none
  | fuel + 1, pc =>
    match getOp pc with
    | none => none
    | some (opcode, data, []) => some (opcode, data)
    | some (_, _, b :: pc) => lastOpLoop fuel (b :: pc)

def CScript.lastOp (s : CScript) : Option (UInt8 × List UInt8) := lastOpLoop s.length s

theorem directPush_range (hop : op < OP_PUSHDATA1) : op ≤ OP_PUSHDATA4 ∧ ¬ (OP_IF ≤ op ∧ op ≤ OP_ENDIF) := by
  have h75 : op.toNat < 76 := UInt8.lt_iff_toNat_lt.mp hop
  constructor
  · have hle : op.toNat ≤ 78 := by omega
    exact UInt8.le_iff_toNat_le.mpr hle
  · rintro ⟨hif, -⟩
    have h99 : 99 ≤ op.toNat := UInt8.le_iff_toNat_le.mp hif
    omega

theorem evalOp_directPush (hop : op < OP_PUSHDATA1) (hvf : s'.vfExec = [])
    (h : evalOp ctx op d pc s = .ok s') : s'.stack = d :: s.stack := by
  obtain ⟨hle, hif⟩ := directPush_range hop
  simp only [evalOp, hle, hif, and_true, or_false] at h
  split at h
  · split at h
    · cases h
    · cases h
      rfl
  · rename_i hexec
    cases h
    simp [hvf] at hexec

/-- **The last push is on top.** If a run succeeds with balanced conditions and its last operation is a direct push, the
    pushed data is on top of the final stack. -/
theorem evalLoop_lastPush (hop : op < OP_PUSHDATA1) :
    ∀ {fuel : Nat} {pc : CScript} {s s' : EvalState} {k : Nat}, pc.length ≤ fuel →
      lastOpLoop k pc = some (op, d) → evalLoop ctx fuel pc s = .ok s' → s'.vfExec = [] →
      ∃ st, s'.stack = d :: st := by
  intro fuel pc s s' k
  induction k generalizing fuel pc s with
  | zero =>
    intro _ hlast
    cases hlast
  | succ k ih =>
    intro hfuel hlast h hvf
    simp only [lastOpLoop] at hlast
    split at hlast
    · cases hlast
    · rename_i opcode data hget
      cases hlast
      obtain ⟨n, s1, fuel', hs1, -, hrest⟩ := evalLoop_step hget hfuel h
      simp only [evalLoop] at hrest
      cases hrest
      exact ⟨_, evalOp_directPush hop hvf hs1⟩
    · rename_i opcode data b rest hget
      obtain ⟨n, s1, fuel', -, hfuel', hrest⟩ := evalLoop_step hget hfuel h
      exact ih hfuel' hlast hrest hvf

/-! ## Single operations -/

theorem getOp_direct {n : UInt8} {d : CScript} (hn : n < OP_PUSHDATA1) (hd : d.length = n.toNat) :
    getOp (n :: (d ++ rest)) = some (n, d, rest) := by
  simp [getOp, takeOperand, hn, ← hd]

theorem getOp_opcode (hop : OP_PUSHDATA4 < op) : getOp (op :: pc) = some (op, [], pc) := by
  have h4 : OP_PUSHDATA4.toNat < op.toNat := UInt8.lt_iff_toNat_lt.mp hop
  have hlt : ¬ op < OP_PUSHDATA1 := by
    rw [UInt8.lt_iff_toNat_lt]
    simp only [OP_PUSHDATA1, OP_PUSHDATA4, UInt8.reduceToNat] at h4 ⊢
    omega
  have hne : op ≠ OP_PUSHDATA1 ∧ op ≠ OP_PUSHDATA2 ∧ op ≠ OP_PUSHDATA4 := by
    refine ⟨?_, ?_, ?_⟩ <;> rintro rfl <;> revert hop <;> decide
  simp only [getOp, hlt, hne, if_false]

theorem evalOp_of_exec (hop : OP_PUSHDATA4 < op) (hexec : s.vfExec.all id = true) :
    evalOp ctx op d pc s = execOp ctx op true pc s := by
  have hnot : ¬ op ≤ OP_PUSHDATA4 := UInt8.not_le.mpr hop
  simp only [evalOp, hexec, hnot, and_false, if_false, true_or, if_true]

theorem evalOp_conditional (hop : OP_PUSHDATA4 < op) (hif : OP_IF ≤ op ∧ op ≤ OP_ENDIF) :
    evalOp ctx op d pc s = execOp ctx op (s.vfExec.all id) pc s := by
  have hnot : ¬ op ≤ OP_PUSHDATA4 := UInt8.not_le.mpr hop
  simp only [evalOp, hnot, and_false, if_false, hif, and_self, or_true, if_true]

theorem evalOp_skip (hop : OP_ENDIF < op) (hexec : s.vfExec.all id = false) : evalOp ctx op d pc s = .ok s := by
  have hnot : ¬ op ≤ OP_ENDIF := UInt8.not_le.mpr hop
  simp [evalOp, hexec, hnot]

section Inversion

variable {pc : CScript} {s s' : EvalState} {fExec : Bool}

theorem execOp_dup (h : execOp ctx OP_DUP fExec pc s = .ok s') :
    ∃ x st, s.stack = x :: st ∧ s' = { s with stack := x :: x :: st } := by
  obtain ⟨code, stack, alt, vf, n⟩ := s
  cases stack with
  | nil => cases h
  | cons x st =>
    cases h
    exact ⟨x, st, rfl, rfl⟩

theorem execOp_rot (h : execOp ctx OP_ROT fExec pc s = .ok s') :
    ∃ x3 x2 x1 st, s.stack = x3 :: x2 :: x1 :: st ∧ s' = { s with stack := x1 :: x3 :: x2 :: st } := by
  obtain ⟨code, stack, alt, vf, n⟩ := s
  match stack, h with
  | x3 :: x2 :: x1 :: st, h =>
    cases h
    exact ⟨x3, x2, x1, st, rfl, rfl⟩

theorem execOp_hash160 (h : execOp ctx OP_HASH160 fExec pc s = .ok s') :
    ∃ x st, s.stack = x :: st ∧ s' = { s with stack := ctx.crypto.hash160 x :: st } := by
  obtain ⟨code, stack, alt, vf, n⟩ := s
  cases stack with
  | nil => cases h
  | cons x st =>
    cases h
    exact ⟨x, st, rfl, rfl⟩

theorem execOp_equalVerify (h : execOp ctx OP_EQUALVERIFY fExec pc s = .ok s') :
    ∃ x st, s.stack = x :: x :: st ∧ s' = { s with stack := st } := by
  obtain ⟨code, stack, alt, vf, n⟩ := s
  match stack, h with
  | y :: x :: st, h =>
    have h : pushOrVerify true (x == y) .EQUALVERIFY ⟨code, y :: x :: st, alt, vf, n⟩ st = .ok s' := h
    cases heq : x == y with
    | false =>
      rw [heq] at h
      cases h
    | true =>
      rw [heq] at h
      cases h
      rw [beq_iff_eq.mp heq]
      exact ⟨y, st, rfl, rfl⟩

theorem execOp_if (h : execOp ctx OP_IF true pc s = .ok s') : ∃ x st, s.stack = x :: st ∧
      s' = { s with stack := st, vfExec := castToBool x :: s.vfExec } := by
  obtain ⟨code, stack, alt, vf, n⟩ := s
  cases stack with
  | nil => cases h
  | cons x st =>
    cases h
    refine ⟨x, st, rfl, ?_⟩
    simp only [EvalState.mk.injEq, List.cons.injEq, and_true, true_and]
    show (castToBool x != false) = castToBool x
    simp

variable {vf : List Bool}

theorem execOp_else {b : Bool} (h : execOp ctx OP_ELSE fExec pc s = .ok s') (hvf : s.vfExec = b :: vf) :
    s' = { s with vfExec := (!b) :: vf } := by
  obtain ⟨code, stack, alt, vf, n⟩ := s
  cases hvf
  cases h
  rfl

theorem execOp_endif {b : Bool} (h : execOp ctx OP_ENDIF fExec pc s = .ok s') (hvf : s.vfExec = b :: vf) :
    s' = { s with vfExec := vf } := by
  obtain ⟨code, stack, alt, vf, n⟩ := s
  cases hvf
  cases h
  rfl

theorem execOp_checkLockTime (hflag : hasFlag ctx.flags SCRIPT_VERIFY_CHECKLOCKTIMEVERIFY = true)
    (h : execOp ctx OP_CHECKLOCKTIMEVERIFY fExec pc s = .ok s') :
    s' = s ∧ ∃ top st nLockTime, s.stack = top :: st ∧
      scriptNum top ctx.fRequireMinimal 5 = some nLockTime ∧ ctx.checker.checkLockTime nLockTime = true := by
  simp only [execOp, hflag, show ¬ (OP_CHECKLOCKTIMEVERIFY = OP_1NEGATE ∨ OP_1 ≤ OP_CHECKLOCKTIMEVERIFY ∧
    OP_CHECKLOCKTIMEVERIFY ≤ OP_16) by decide, show OP_CHECKLOCKTIMEVERIFY ≠ OP_NOP by decide,
    show OP_CHECKLOCKTIMEVERIFY ≠ OP_EXCHANGEADDR by decide, Bool.not_true, Bool.false_eq_true,
    if_false, if_true] at h
  split at h
  · cases h
  · rename_i top st hst
    split at h
    · cases h
    · rename_i nLockTime hnum
      split at h
      · cases h
      · split at h
        · cases h
        · rename_i hcheck
          cases h
          exact ⟨rfl, top, st, nLockTime, hst, hnum, by simpa using hcheck⟩

theorem execOp_checkColdStake {op : UInt8} (hop : op = OP_CHECKCOLDSTAKEVERIFY ∨ op = OP_CHECKCOLDSTAKEVERIFY_LOF)
    (h : execOp ctx op fExec pc s = .ok s') :
    s' = s ∧ ctx.checker.checkColdStake (op == OP_CHECKCOLDSTAKEVERIFY_LOF) ctx.script s.stack ctx.flags = .ok () := by
  rcases hop with rfl | rfl
  · obtain ⟨u, hu, hs⟩ := bind_eq_ok.mp h
    cases hs
    exact ⟨rfl, hu⟩
  · obtain ⟨u, hu, hs⟩ := bind_eq_ok.mp h
    cases hs
    exact ⟨rfl, hu⟩

theorem execOp_checkSig (h : execOp ctx OP_CHECKSIG fExec pc s = .ok s') :
    ∃ vchPubKey vchSig st, s.stack = vchPubKey :: vchSig :: st ∧ ctx.checkEncodings vchSig vchPubKey = .ok () ∧
      s' = { s with stack := vchBool (ctx.checker.checkSig vchSig vchPubKey
        (s.pbegincodehash.findAndDelete (pushData vchSig)) ctx.sigversion) :: st } := by
  obtain ⟨code, stack, alt, vf, n⟩ := s
  match stack, h with
  | vchPubKey :: vchSig :: st, h =>
    obtain ⟨u, hu, hs⟩ := bind_eq_ok.mp h
    cases hs
    exact ⟨vchPubKey, vchSig, st, rfl, hu, rfl⟩
end Inversion

/-! ## The standard scripts -/

variable {stack stack' : List (List UInt8)}

theorem evalScript_ok (h : evalScript ctx stack = .ok stack') : ∃ s' fuel, ctx.script.length ≤ fuel ∧
      evalLoop ctx fuel ctx.script ⟨ctx.script, stack, [], [], 0⟩ = .ok s' ∧ s'.vfExec = [] ∧
      s'.stack = stack' := by
  unfold evalScript at h
  split at h
  · cases h
  · split at h
    · cases h
    · rename_i s' hloop
      split at h
      · rename_i hvf
        cases h
        exact ⟨s', _, Nat.le_refl _, hloop, List.isEmpty_iff.mp hvf, rfl⟩
      · cases h

variable {st : List (List UInt8)}

theorem checkTop_vchBool {b : Bool} (h : checkTop (vchBool b :: st) = .ok ()) : b = true := by
  cases b with
  | true => rfl
  | false => cases h

theorem evalLoop_exec (hop : OP_PUSHDATA4 < op) (hexec : s.vfExec.all id = true) (hfuel : (op :: pc).length ≤ fuel)
    (h : evalLoop ctx fuel (op :: pc) s = .ok s') :
    ∃ n s1 fuel', execOp ctx op true pc { s with nOpCount := n } = .ok s1 ∧ pc.length ≤ fuel' ∧
      evalLoop ctx fuel' pc s1 = .ok s' := by
  obtain ⟨n, s1, fuel', h1, hfuel', hrest⟩ := evalLoop_step (getOp_opcode hop) hfuel h
  rw [evalOp_of_exec hop (by exact hexec)] at h1
  exact ⟨n, s1, fuel', h1, hfuel', hrest⟩

/-- Data pushed directly by a successful run, and the run after it; nothing is pushed in a branch that is not taken. -/
theorem evalLoop_push {d : CScript} (hop : op < OP_PUSHDATA1) (hd : d.length = op.toNat)
    (hfuel : (op :: (d ++ pc)).length ≤ fuel) (h : evalLoop ctx fuel (op :: (d ++ pc)) s = .ok s') :
    ∃ n fuel', pc.length ≤ fuel' ∧
      evalLoop ctx fuel' pc { s with
        stack := if s.vfExec.all id then d :: s.stack else s.stack, nOpCount := n } = .ok s' := by
  obtain ⟨n, s1, fuel', h1, hfuel', hrest⟩ := evalLoop_step (getOp_direct hop hd) hfuel h
  obtain ⟨hle, hif⟩ := directPush_range hop
  refine ⟨n, fuel', hfuel', ?_⟩
  simp only [evalOp, hle, hif, and_true, or_false] at h1
  split at h1
  · rename_i hexec
    split at h1
    · cases h1
    · cases h1
      rw [if_pos hexec]
      exact hrest
  · rename_i hexec
    cases h1
    rw [if_neg hexec]
    exact hrest

theorem eval_equalVerify_checkSig (hvf : s.vfExec = []) (hfuel : 2 ≤ fuel)
    (h : evalLoop ctx fuel [OP_EQUALVERIFY, OP_CHECKSIG] s = .ok s') (htop : checkTop s'.stack = .ok ()) :
    ∃ hash key sig st code, s.stack = hash :: hash :: key :: sig :: st ∧
      ctx.checkEncodings sig key = .ok () ∧ ctx.checker.checkSig sig key code ctx.sigversion = true := by
  obtain ⟨n, s1, fuel1, h1, hfuel1, h⟩ := evalLoop_exec (by decide) (by simp [hvf]) hfuel h
  obtain ⟨hash, st1, hst1, rfl⟩ := execOp_equalVerify h1
  obtain ⟨n2, s2, fuel2, h2, -, h⟩ := evalLoop_exec (by decide) (by simp [hvf]) hfuel1 h
  obtain ⟨key, sig, st, hst, henc, rfl⟩ := execOp_checkSig h2
  simp only [evalLoop] at h
  cases h
  simp only at hst hst1
  exact ⟨hash, key, sig, st, _, by rw [hst1, hst], henc, checkTop_vchBool htop⟩

/-- **What a pay-to-pubkey-hash script has checked**: the key on top of the stack has the hash in the
    script, and the signature below it is one of that key. -/
theorem eval_payToPubKeyHash {keyID : List UInt8} (hlen : keyID.length = 20)
    (hscript : ctx.script = payToPubKeyHash keyID) (heval : evalScript ctx stack = .ok stack')
    (htop : checkTop stack' = .ok ()) : ∃ key sig st code, stack = key :: sig :: st ∧ ctx.crypto.hash160 key = keyID ∧
      ctx.checkEncodings sig key = .ok () ∧ ctx.checker.checkSig sig key code ctx.sigversion = true := by
  obtain ⟨s', fuel, hfuel, h, -, rfl⟩ := evalScript_ok heval
  rw [hscript] at h hfuel
  obtain ⟨n1, s1, fuel1, h1, hfuel1, h⟩ := evalLoop_exec (by decide) rfl hfuel h
  obtain ⟨key, st1, hst1, rfl⟩ := execOp_dup h1
  obtain ⟨n2, s2, fuel2, h2, hfuel2, h⟩ := evalLoop_exec (by decide) rfl hfuel1 h
  obtain ⟨x, st2, hst2, rfl⟩ := execOp_hash160 h2
  cases hst2
  obtain ⟨n3, fuel3, hfuel3, h⟩ := evalLoop_push (by decide) hlen hfuel2 h
  obtain ⟨hash, key', sig, st, code, hst, henc, hsig⟩ :=
    eval_equalVerify_checkSig rfl hfuel3 h htop
  simp only [List.all_nil, if_true, List.cons.injEq] at hst hst1
  obtain ⟨rfl, hhash, rfl, rfl⟩ := hst
  exact ⟨key, sig, st, code, hst1, hhash, henc, hsig⟩

variable {stakingKey spendingKey : List UInt8}

/-- What the end of a cold-staking script has checked, from the hash it selects on: `b` tells which branch runs. -/
theorem eval_coldStakeBranches {b : Bool} {hash key : List UInt8} (hstaking : stakingKey.length = 20)
    (hspending : spendingKey.length = 20) (hvf : s.vfExec = [b]) (hst : s.stack = hash :: key :: st)
    (hfuel : (0x14 :: (stakingKey ++ OP_ELSE :: 0x14 :: (spendingKey ++
      [OP_ENDIF, OP_EQUALVERIFY, OP_CHECKSIG]))).length ≤ fuel)
    (h : evalLoop ctx fuel (0x14 :: (stakingKey ++ OP_ELSE :: 0x14 :: (spendingKey ++
      [OP_ENDIF, OP_EQUALVERIFY, OP_CHECKSIG]))) s = .ok s') (htop : checkTop s'.stack = .ok ()) :
    hash = (if b then stakingKey else spendingKey) ∧ ∃ sig st' code, st = sig :: st' ∧
      ctx.checkEncodings sig key = .ok () ∧ ctx.checker.checkSig sig key code ctx.sigversion = true := by
  obtain ⟨n1, fuel1, hfuel1, h⟩ := evalLoop_push (by decide) hstaking hfuel h
  obtain ⟨n2, s2, fuel2, h2, hfuel2, h⟩ := evalLoop_step (getOp_opcode (by decide)) hfuel1 h
  rw [evalOp_conditional (by decide) (by decide)] at h2
  obtain rfl := execOp_else h2 hvf
  obtain ⟨n3, fuel3, hfuel3, h⟩ := evalLoop_push (by decide) hspending hfuel2 h
  obtain ⟨n4, s4, fuel4, h₄, hfuel4, h⟩ := evalLoop_step (getOp_opcode (by decide)) hfuel3 h
  rw [evalOp_conditional (by decide) (by decide)] at h₄
  obtain rfl := execOp_endif h₄ rfl
  obtain ⟨hash', key', sig, st', code, hst', henc, hsig⟩ :=
    eval_equalVerify_checkSig rfl hfuel4 h htop
  have hsel : hash = (if b then stakingKey else spendingKey) ∧ key = key' ∧ st = sig :: st' := by
    cases b <;> simp [hvf, hst] at hst' ⊢ <;> simp [hst']
  obtain ⟨hhash, rfl, rfl⟩ := hsel
  exact ⟨hhash, sig, st', code, rfl, henc, hsig⟩

/-- **What a cold-staking script has checked**: the key on top of the stack has the hash of the branch that the flag
    below it selects, the signature is one of that key, and the staker's branch has passed `CheckColdStake`. -/
theorem eval_payToColdStaking {opcode : UInt8}
    (hopcode : opcode = OP_CHECKCOLDSTAKEVERIFY ∨ opcode = OP_CHECKCOLDSTAKEVERIFY_LOF)
    (hstaking : stakingKey.length = 20) (hspending : spendingKey.length = 20)
    (hscript : ctx.script = payToColdStaking opcode stakingKey spendingKey)
    (heval : evalScript ctx stack = .ok stack') (htop : checkTop stack' = .ok ()) :
    ∃ key flag sig st code, stack = key :: flag :: sig :: st ∧
      ctx.crypto.hash160 key = (if castToBool flag then stakingKey else spendingKey) ∧
      ctx.checkEncodings sig key = .ok () ∧ ctx.checker.checkSig sig key code ctx.sigversion = true ∧
      (castToBool flag = true → ctx.checker.checkColdStake (opcode == OP_CHECKCOLDSTAKEVERIFY_LOF)
        ctx.script (ctx.crypto.hash160 key :: key :: sig :: st) ctx.flags = .ok ()) := by
  obtain ⟨s', fuel, hfuel, h, -, rfl⟩ := evalScript_ok heval
  have hcons : payToColdStaking opcode stakingKey spendingKey = OP_DUP :: OP_HASH160 :: OP_ROT ::
      OP_IF :: opcode :: 0x14 :: (stakingKey ++ OP_ELSE :: 0x14 :: (spendingKey ++
        [OP_ENDIF, OP_EQUALVERIFY, OP_CHECKSIG])) := by
    simp [payToColdStaking]
  rw [hscript, hcons] at h hfuel
  obtain ⟨n1, s1, fuel1, h1, hfuel1, h⟩ := evalLoop_exec (by decide) rfl hfuel h
  obtain ⟨key, st1, hst1, rfl⟩ := execOp_dup h1
  obtain ⟨n2, s2, fuel2, h2, hfuel2, h⟩ := evalLoop_exec (by decide) rfl hfuel1 h
  obtain ⟨x, st2, hst2, rfl⟩ := execOp_hash160 h2
  cases hst2
  obtain ⟨n3, s3, fuel3, h3, hfuel3, h⟩ := evalLoop_exec (by decide) rfl hfuel2 h
  obtain ⟨x3, x2, flag, st3, hst3, rfl⟩ := execOp_rot h3
  cases hst3
  obtain ⟨n4, s4, fuel4, h₄, hfuel4, h⟩ := evalLoop_exec (by decide) rfl hfuel3 h
  obtain ⟨x4, st4, hst4, rfl⟩ := execOp_if h₄
  cases hst4
  obtain ⟨n5, s5, fuel5, h5, hfuel5, h⟩ := evalLoop_step
    (getOp_opcode (by rcases hopcode with rfl | rfl <;> decide)) hfuel4 h
  -- the check of the staker's branch leaves the stack as it is, and is skipped in the owner's
  have hs5 : s5.stack = ctx.crypto.hash160 key :: key :: st3 ∧ s5.vfExec = [castToBool flag] ∧
      (castToBool flag = true → ctx.checker.checkColdStake (opcode == OP_CHECKCOLDSTAKEVERIFY_LOF)
        ctx.script (ctx.crypto.hash160 key :: key :: st3) ctx.flags = .ok ()) := by
    cases hflag : castToBool flag with
    | true =>
      rw [evalOp_of_exec (by rcases hopcode with rfl | rfl <;> decide) (by simp [hflag])] at h5
      obtain ⟨rfl, hcheck⟩ := execOp_checkColdStake hopcode h5
      exact ⟨rfl, by simp [hflag], fun _ => hcheck⟩
    | false =>
      rw [evalOp_skip (by rcases hopcode with rfl | rfl <;> decide) (by simp [hflag])] at h5
      cases h5
      simp [hflag]
  obtain ⟨hhash, sig, st', code, rfl, henc, hsig⟩ :=
    eval_coldStakeBranches hstaking hspending hs5.2.1 hs5.1 hfuel5 h htop
  exact ⟨key, flag, sig, st', code, hst1, hhash, henc, hsig, hs5.2.2⟩

theorem verifyScript_ok {c : Crypto} {scriptSig scriptPubKey : CScript} {flags : UInt32}
    {checker : BaseSignatureChecker} {sigversion : SigVersion}
    (h : verifyScript c scriptSig scriptPubKey flags checker sigversion = .ok ()) :
    ∃ stackCopy stack, evalScript ⟨c, checker, flags, sigversion, scriptSig⟩ [] = .ok stackCopy ∧
      evalScript ⟨c, checker, flags, sigversion, scriptPubKey⟩ stackCopy = .ok stack ∧
      checkTop stack = .ok () := by
  simp only [verifyScript, bind_eq_ok] at h
  obtain ⟨-, -, stackCopy, hsig, stack, hpub, ⟨⟩, htop, -⟩ := h
  exact ⟨stackCopy, stack, hsig, hpub, htop⟩

end KrovaCoin
