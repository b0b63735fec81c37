import KrovaCoin.Kernel

/-!
# `OP_CHECKMULTISIG` (`script/interpreter.cpp`)

The loop of the opcode looks once at each key, from the top of the stack downwards, and moves on to
the next signature whenever the current one verifies.

* `multisigLoop_iff` — the loop decides whether the signatures match a sublist of the keys.
* `exists_args_of_checkMultisig`, `checkMultisig_of_args` — the opcode succeeds on arguments within its
  limits, and there it is its loop.

Principal result: `checkMultisig_orderedMatching`.
-/

namespace KrovaCoin

open Lib List

/-! ## Greedy matching -/

section Greedy

variable {α β : Type} {R : α → β → Prop} {a : α} {b : β} {l1 : List α} {l2 : List β}

theorem sublistForall₂_length_le (h : SublistForall₂ R l1 l2) : l1.length ≤ l2.length := by
  obtain ⟨l, hall, hsub⟩ := sublistForall₂_iff.1 h
  exact hall.length_eq ▸ hsub.length_le

theorem sublistForall₂_of_cons (h : SublistForall₂ R (a :: l1) l2) : SublistForall₂ R l1 l2 := by
  obtain ⟨l, hall, hsub⟩ := sublistForall₂_iff.1 h
  cases hall with
  | cons _ htail => exact sublistForall₂_iff.2 ⟨_, htail, (sublist_cons_self _ _).trans hsub⟩

/-- If the first of each list are related, they can be matched with each other: a matching that gives
    `a` a later partner leaves `b` free. -/
theorem sublistForall₂_cons_of_rel (h : R a b) : SublistForall₂ R (a :: l1) (b :: l2) ↔ SublistForall₂ R l1 l2 := by
  refine ⟨fun hmatch => ?_, .cons h⟩
  cases hmatch with
  | cons _ htail => exact htail
  | cons_right hlater => exact sublistForall₂_of_cons hlater

theorem sublistForall₂_cons_of_not_rel (h : ¬ R a b) :
    SublistForall₂ R (a :: l1) (b :: l2) ↔ SublistForall₂ R (a :: l1) l2 := by
  refine ⟨fun hmatch => ?_, .cons_right⟩
  cases hmatch with
  | cons hrel _ => exact absurd hrel h
  | cons_right hlater => exact hlater

theorem sublistForall₂_iff_orderEmbedding :
    SublistForall₂ R l1 l2 ↔ ∃ f : Fin l1.length ↪o Fin l2.length, ∀ i, R (l1.get i) (l2.get (f i)) := by
  rw [sublistForall₂_iff]
  constructor
  · rintro ⟨l, hall, hsub⟩
    obtain ⟨f, hf⟩ := sublist_iff_exists_fin_orderEmbedding_get_eq.1 hsub
    obtain ⟨hlen, hget⟩ := forall₂_iff_get.1 hall
    refine ⟨(Fin.castOrderIso hlen).toOrderEmbedding.trans f, fun i => ?_⟩
    have hi := hget i i.isLt (hlen ▸ i.isLt)
    exact hf (Fin.cast hlen i) ▸ hi
  · rintro ⟨f, hf⟩
    refine ⟨ofFn fun i => l2.get (f i), forall₂_iff_get.2 ⟨by simp, fun i hi hi' => ?_⟩, ?_⟩
    · simpa using hf ⟨i, hi⟩
    · refine sublist_iff_exists_fin_orderEmbedding_get_eq.2
        ⟨(Fin.castOrderIso (by simp)).toOrderEmbedding.trans f, fun i => ?_⟩
      simp [Fin.cast]

end Greedy

/-! ## The loop -/

section Loop

variable {ctx : EvalContext} {scriptCode : CScript}

/-- `checker.CheckSig` as a relation between signatures and keys. -/
def EvalContext.Verifies (ctx : EvalContext) (scriptCode : CScript) (vchSig vchPubKey : List UInt8) : Prop :=
  ctx.checker.checkSig vchSig vchPubKey scriptCode ctx.sigversion = true

theorem multisigLoop_iff : ∀ {sigs keys : List (List UInt8)} {b : Bool}, multisigLoop ctx scriptCode sigs keys = .ok b →
      (b = true ↔ SublistForall₂ (ctx.Verifies scriptCode) sigs keys)
  | [], _, b, h => by
    rw [multisigLoop] at h
    cases h
    exact iff_of_true rfl .nil
  | _ :: _, [], b, h => by
    cases h
    exact iff_of_false Bool.false_ne_true fun hmatch => Nat.not_succ_le_zero _ (sublistForall₂_length_le hmatch)
  | vchSig :: sigs, vchPubKey :: keys, b, h => by
    simp only [multisigLoop, bind_eq_ok] at h
    obtain ⟨-, -, h⟩ := h
    -- what is left after this key has a matching exactly if there was one before
    have hleft : ∀ left, (if ctx.checker.checkSig vchSig vchPubKey scriptCode ctx.sigversion = true then sigs
        else vchSig :: sigs) = left → (SublistForall₂ (ctx.Verifies scriptCode) (vchSig :: sigs)
          (vchPubKey :: keys) ↔ SublistForall₂ (ctx.Verifies scriptCode) left keys) := by
      rintro left rfl
      split <;> rename_i hsig
      · exact sublistForall₂_cons_of_rel hsig
      · exact sublistForall₂_cons_of_not_rel hsig
    generalize hl : (if ctx.checker.checkSig vchSig vchPubKey scriptCode ctx.sigversion = true then sigs
      else vchSig :: sigs) = left at h
    rw [hleft left hl]
    split at h <;> rename_i hlen
    · cases h
      exact iff_of_false Bool.false_ne_true fun hmatch => absurd (sublistForall₂_length_le hmatch) (by omega)
    · exact multisigLoop_iff h

theorem multisigLoop_ok : ∀ {sigs keys : List (List UInt8)},
    (∀ sig ∈ sigs, checkSignatureEncoding ctx.crypto sig ctx.flags = .ok ()) →
    (∀ key ∈ keys, checkPubKeyEncoding key ctx.flags = .ok ()) → ∃ b, multisigLoop ctx scriptCode sigs keys = .ok b
  | [], _, _, _ => ⟨true, by simp [multisigLoop]⟩
  | _ :: _, [], _, _ => ⟨false, by simp [multisigLoop]⟩
  | vchSig :: sigs, vchPubKey :: keys, hsigs, hkeys => by
    have hkeys' := fun key hkey => hkeys key (mem_cons_of_mem _ hkey)
    simp only [multisigLoop, EvalContext.checkEncodings, hsigs _ mem_cons_self, hkeys _ mem_cons_self, ok_bind]
    generalize hleft : (if ctx.checker.checkSig vchSig vchPubKey scriptCode ctx.sigversion = true then sigs
      else vchSig :: sigs) = left
    split
    · exact ⟨false, rfl⟩
    · refine multisigLoop_ok (fun sig hsig => hsigs sig ?_) hkeys'
      split at hleft <;> subst hleft
      · exact mem_cons_of_mem _ hsig
      · exact hsig

end Loop

/-! ## The opcode -/

/-- `CScriptNum(vch, fRequireMinimal).getint()` is `n`. -/
def EvalContext.Counts (ctx : EvalContext) (vch : List UInt8) (n : Nat) : Prop :=
  ∃ num, ctx.num vch = .ok num ∧ getint num = n

/-- The arguments of the opcode on the stack, within its limits. The stack has its top first, so keys and signatures are
    both listed in the order opposite to that of the script. -/
structure MultisigArgs (ctx : EvalContext) (s : EvalState) where
  keyCount : List UInt8
  keys : List (List UInt8)
  sigCount : List UInt8
  sigs : List (List UInt8)
  dummy : List UInt8
  rest : List (List UInt8)
  stack_eq : s.stack = keyCount :: (keys ++ sigCount :: (sigs ++ dummy :: rest))
  keys_count : ctx.Counts keyCount keys.length
  sigs_count : ctx.Counts sigCount sigs.length
  keys_le : keys.length ≤ MAX_PUBKEYS_PER_MULTISIG
  ops_le : s.nOpCount + keys.length ≤ 201
  sigs_le : sigs.length ≤ keys.length
  nullDummy : hasFlag ctx.flags SCRIPT_VERIFY_NULLDUMMY = true → dummy = []

namespace MultisigArgs

variable {ctx : EvalContext} {s : EvalState}

/-- The script that is signed: the signatures are dropped from it. -/
def scriptCode (a : MultisigArgs ctx s) : CScript :=
  a.sigs.foldl (fun code sig => code.findAndDelete (pushData sig)) s.pbegincodehash

/-- The encodings the active flags accept. -/
def Encoded (a : MultisigArgs ctx s) : Prop :=
  (∀ sig ∈ a.sigs, checkSignatureEncoding ctx.crypto sig ctx.flags = .ok ()) ∧
    ∀ key ∈ a.keys, checkPubKeyEncoding key ctx.flags = .ok ()

/-- An order-preserving injection of the signatures into the keys, each verifying under its key. -/
def Matching (a : MultisigArgs ctx s) : Prop :=
  ∃ f : Fin a.sigs.length ↪o Fin a.keys.length, ∀ i, ctx.Verifies a.scriptCode (a.sigs.get i) (a.keys.get (f i))

/-- The state after the opcode: all arguments are popped, `pushed` is on top of what was below. -/
def after (a : MultisigArgs ctx s) (pushed : List (List UInt8)) : EvalState :=
  { s with stack := pushed ++ a.rest, nOpCount := s.nOpCount + a.keys.length }

end MultisigArgs

variable {ctx : EvalContext} {s : EvalState}

theorem exists_args_of_checkMultisig {fSuccess : Bool} {st : List (List UInt8)} {n : Nat}
    (h : checkMultisig ctx s = .ok (fSuccess, st, n)) : ∃ a : MultisigArgs ctx s,
      multisigLoop ctx a.scriptCode a.sigs a.keys = .ok fSuccess ∧ st = a.rest ∧ n = s.nOpCount + a.keys.length := by
  unfold checkMultisig at h
  split at h
  · cases h
  rename_i top below hstack
  simp only [bind_eq_ok, rejectIf_eq_ok, decide_eq_false_iff_not, exists_and_left, exists_const] at h
  obtain ⟨nKeys, hnKeys, hkeys, hops, h⟩ := h
  split at h
  · cases h
  rename_i sigCount rest hbelow
  simp only [bind_eq_ok, rejectIf_eq_ok, decide_eq_false_iff_not, exists_and_left, exists_const] at h
  obtain ⟨nSigs, hnSigs, hsigs, hrest, b, hloop, h⟩ := h
  split at h
  · cases h
  rename_i dummy st' hdummy
  simp only [bind_eq_ok, rejectIf_eq_ok, exists_and_left, exists_const] at h
  obtain ⟨hnull, h⟩ := h
  cases h
  generalize hK : (getint nKeys).toNat = K at *
  generalize hS : (getint nSigs).toNat = S at *
  have hlen : (below.take K).length = K := by
    have := congrArg length hbelow
    simp only [length_drop, length_cons] at this
    rw [length_take]
    omega
  have hlen' : (rest.take S).length = S := by
    rw [length_take]
    omega
  refine ⟨⟨top, below.take K, sigCount, rest.take S, dummy, st, ?_, ⟨nKeys, hnKeys, ?_⟩, ⟨nSigs, hnSigs, ?_⟩, ?_, ?_,
    ?_, fun hflag => ?_⟩, hloop, rfl, ?_⟩
  · rw [hstack, ← hdummy, take_append_drop, ← hbelow, take_append_drop]
  · omega
  · omega
  · omega
  · omega
  · omega
  · simpa [hflag] using hnull
  · rw [hlen]

theorem checkMultisig_of_args (a : MultisigArgs ctx s) {fSuccess : Bool}
    (hloop : multisigLoop ctx a.scriptCode a.sigs a.keys = .ok fSuccess) :
    checkMultisig ctx s = .ok (fSuccess, a.rest, s.nOpCount + a.keys.length) := by
  obtain ⟨nKeys, hnKeys, hkeys⟩ := a.keys_count
  obtain ⟨nSigs, hnSigs, hsigs⟩ := a.sigs_count
  have hK := a.keys_le
  have hS := a.sigs_le
  have hops := a.ops_le
  simp only [checkMultisig, a.stack_eq, hnKeys, hkeys, ok_bind, Int.toNat_natCast, drop_left, take_left, hnSigs, hsigs,
    bind_eq_ok, rejectIf_eq_ok, decide_eq_false_iff_not, exists_and_left, exists_const]
  refine ⟨by omega, by omega, by omega, by simp, fSuccess, hloop, ?_, rfl⟩
  cases hflag : hasFlag ctx.flags SCRIPT_VERIFY_NULLDUMMY with
  | false => rfl
  | true => simp [a.nullDummy hflag]

theorem execOp_checkMultisig {fExec : Bool} {pc : CScript} : execOp ctx OP_CHECKMULTISIG fExec pc s =
    checkMultisig ctx s >>= fun r => .ok { s with stack := vchBool r.1 :: r.2.1, nOpCount := r.2.2 } := rfl

theorem execOp_checkMultisigVerify {fExec : Bool} {pc : CScript} : execOp ctx OP_CHECKMULTISIGVERIFY fExec pc s =
    checkMultisig ctx s >>= fun r =>
      if r.1 then .ok { s with stack := r.2.1, nOpCount := r.2.2 } else .error .CHECKMULTISIGVERIFY := rfl

theorem MultisigArgs.matching_iff (a : MultisigArgs ctx s) {fSuccess : Bool}
    (hloop : multisigLoop ctx a.scriptCode a.sigs a.keys = .ok fSuccess) : fSuccess = true ↔ a.Matching :=
  (multisigLoop_iff hloop).trans sublistForall₂_iff_orderEmbedding

/-- **`OP_CHECKMULTISIG` decides ordered matching.** On arguments within its limits whose encodings the flags accept, it
    pushes whether the signatures can be given keys in order. Wherever it or its verifying form does not fail, it has
    popped the two counts, the keys, the signatures and the element below them, and nothing else. -/
theorem checkMultisig_orderedMatching (ctx : EvalContext) (s : EvalState) (fExec : Bool) (pc : CScript) :
    (∀ a : MultisigArgs ctx s, a.Encoded →
      ∃ b, execOp ctx OP_CHECKMULTISIG fExec pc s = .ok (a.after [vchBool b]) ∧ (b = true ↔ a.Matching)) ∧
    (∀ s', execOp ctx OP_CHECKMULTISIG fExec pc s = .ok s' →
      ∃ (a : MultisigArgs ctx s) (b : Bool), s' = a.after [vchBool b] ∧ (b = true ↔ a.Matching)) ∧
    ∀ s', execOp ctx OP_CHECKMULTISIGVERIFY fExec pc s = .ok s' →
      ∃ a : MultisigArgs ctx s, s' = a.after [] ∧ a.Matching := by
  refine ⟨fun a hencoded => ?_, fun s' h => ?_, fun s' h => ?_⟩
  · obtain ⟨b, hloop⟩ : ∃ b, multisigLoop ctx a.scriptCode a.sigs a.keys = .ok b :=
      multisigLoop_ok hencoded.1 hencoded.2
    refine ⟨b, ?_, a.matching_iff hloop⟩
    rw [execOp_checkMultisig, checkMultisig_of_args a hloop]
    rfl
  · rw [execOp_checkMultisig, bind_eq_ok] at h
    obtain ⟨⟨b, st, n⟩, hcheck, h⟩ := h
    obtain ⟨a, hloop, rfl, rfl⟩ := exists_args_of_checkMultisig hcheck
    cases h
    exact ⟨a, b, rfl, a.matching_iff hloop⟩
  · rw [execOp_checkMultisigVerify, bind_eq_ok] at h
    obtain ⟨⟨b, st, n⟩, hcheck, h⟩ := h
    obtain ⟨a, hloop, rfl, rfl⟩ := exists_args_of_checkMultisig hcheck
    cases b with
    | false => cases h
    | true =>
      cases h
      exact ⟨a, rfl, (a.matching_iff hloop).1 rfl⟩

/-- A checker under which a signature is its key, run with no flags. -/
def plainMultisig : EvalContext :=
  ⟨zeroCrypto, ⟨fun sig key _ _ => sig == key, fun _ => true, fun _ _ _ _ => .ok ()⟩, 0, .SIGVERSION_BASE, []⟩

/-- Two signatures and three keys, above one more element. -/
def multisigStack : EvalState := ⟨[], [[3], [30], [20], [10], [2], [30], [10], [], [7]], [], [], 1⟩

def twoOfThree : MultisigArgs plainMultisig multisigStack where
  keyCount := [3]
  keys := [[30], [20], [10]]
  sigCount := [2]
  sigs := [[30], [10]]
  dummy := []
  rest := [[7]]
  stack_eq := rfl
  keys_count := ⟨3, by decide, by decide⟩
  sigs_count := ⟨2, by decide, by decide⟩
  keys_le := by decide
  ops_le := by decide
  sigs_le := by decide
  nullDummy := fun _ => rfl

theorem twoOfThree_decided : twoOfThree.Encoded ∧ ∃ b,
    execOp plainMultisig OP_CHECKMULTISIG true [] multisigStack = .ok (twoOfThree.after [vchBool b]) ∧
      (b = true ↔ twoOfThree.Matching) :=
  have hencoded : twoOfThree.Encoded := ⟨by decide, by decide⟩
  ⟨hencoded, (checkMultisig_orderedMatching _ _ true []).1 twoOfThree hencoded⟩

end KrovaCoin
