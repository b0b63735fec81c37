import KrovaCoin.Consensus.Premine
import KrovaCoin.Consensus.TxVerify
import KrovaCoin.Script.Execution

/-!
# The vesting schedule is kept (`consensus/vesting.cpp`)

The tranches of the team allocation are locked until dates that follow each other month by month.

* `addMonthsUTC_bounds` — a date some months on is 28 to 31 days later for each month.

Principal result: `teamVesting_locked`.
-/

namespace KrovaCoin

open Lib

/-! ## The calendar -/

/-- Days from 1970-01-01 to the first of March of a year. -/
def marchStart (y : Int) : Int := 365 * y + y / 4 - y / 100 + y / 400 - 719468

/-- Days from 1970-01-01 to the first of a month; the months are counted from March of the year 0. -/
def monthStart (m : Int) : Int := marchStart (m / 12) + (153 * (m % 12) + 2) / 5

theorem daysFromCivil_march {y mp : Int} (h0 : 0 ≤ mp) (h11 : mp ≤ 11) (day : Int) :
    daysFromCivil (if mp < 10 then y else y + 1) (if mp < 10 then mp + 3 else mp - 9) day =
      monthStart (12 * y + mp) + (day - 1) := by
  have hdiv : (12 * y + mp) / 12 = y := by omega
  unfold daysFromCivil monthStart marchStart
  by_cases hmp : mp < 10
  · simp only [hmp, if_true, show ¬ mp + 3 ≤ 2 by omega, show mp + 3 > 2 by omega, if_false]
    omega
  · simp only [hmp, if_false, show mp - 9 ≤ 2 by omega, show ¬ mp - 9 > 2 by omega, if_true]
    omega

theorem marchStart_succ (y : Int) :
    marchStart y + 365 ≤ marchStart (y + 1) ∧ marchStart (y + 1) ≤ marchStart y + 366 := by
  unfold marchStart
  omega

theorem marchStart_era {yoe : Int} (h0 : 0 ≤ yoe) (hlt : yoe < 400) (era : Int) :
    marchStart (yoe + era * 400) = era * 146097 + (365 * yoe + yoe / 4 - yoe / 100) - 719468 := by
  unfold marchStart
  omega

theorem monthStart_succ (m : Int) :
    monthStart m + 28 ≤ monthStart (m + 1) ∧ monthStart (m + 1) ≤ monthStart m + 31 := by
  unfold monthStart
  by_cases hlast : m % 12 = 11
  · have hdiv : (m + 1) / 12 = m / 12 + 1 := by omega
    have hmod : (m + 1) % 12 = 0 := by omega
    have := marchStart_succ (m / 12)
    rw [hdiv, hmod, hlast]
    omega
  · have hdiv : (m + 1) / 12 = m / 12 := by omega
    have hmod : (m + 1) % 12 = m % 12 + 1 := by omega
    rw [hdiv, hmod]
    omega

theorem monthStart_add (m : Int) (k : Nat) :
    monthStart m + 28 * k ≤ monthStart (m + k) ∧ monthStart (m + k) ≤ monthStart m + 31 * k := by
  induction k with
  | zero => simp
  | succ k ih =>
    have hstep := monthStart_succ (m + k)
    rw [show m + ((k + 1 : Nat) : Int) = m + k + 1 by omega]
    omega

/-- A day of an era of 400 years, by century, cycle of four years, year and day of the year. -/
theorem era_digits {doe : Int} (h0 : 0 ≤ doe) (hlt : doe < 146097) :
    ∃ c q y t : Int, doe = 36524 * c + 1461 * q + 365 * y + t ∧ (0 ≤ c ∧ c ≤ 3) ∧ (0 ≤ q ∧ q ≤ 24) ∧
      (0 ≤ y ∧ y ≤ 3) ∧ 0 ≤ t ∧ (t ≤ 364 ∨ y = 3 ∧ t = 365 ∧ (q < 24 ∨ c = 3)) := by
  obtain ⟨c, r, hc, hr, hc03, hr0, hrlast⟩ : ∃ c r : Int, doe = 36524 * c + r ∧ r ≤ 36524 ∧
      (0 ≤ c ∧ c ≤ 3) ∧ 0 ≤ r ∧ (r < 36524 ∨ c = 3) :=
    ⟨min (doe / 36524) 3, doe - 36524 * min (doe / 36524) 3, by omega, by omega, by omega, by omega, by omega⟩
  obtain ⟨q, s, hq, hq24, hs⟩ : ∃ q s : Int, r = 1461 * q + s ∧ (0 ≤ q ∧ q ≤ 24) ∧ 0 ≤ s ∧ s ≤ 1460 :=
    ⟨r / 1461, r % 1461, by omega, by omega, by omega⟩
  obtain ⟨y, t, hy, hy3, ht, hlast⟩ : ∃ y t : Int, s = 365 * y + t ∧ (0 ≤ y ∧ y ≤ 3) ∧ 0 ≤ t ∧
      (t ≤ 364 ∨ y = 3 ∧ t = 365) :=
    ⟨min (s / 365) 3, s - 365 * min (s / 365) 3, by omega, by omega, by omega, by omega⟩
  refine ⟨c, q, y, t, by omega, hc03, hq24, hy3, ht, ?_⟩
  rcases hlast with hlast | ⟨hy, ht⟩
  · exact .inl hlast
  · exact .inr ⟨hy, ht, by omega⟩

theorem yoe_eq {doe c q y t : Int} (hdoe : doe = 36524 * c + 1461 * q + 365 * y + t) (hc : 0 ≤ c ∧ c ≤ 3)
    (hq : 0 ≤ q ∧ q ≤ 24) (hy : 0 ≤ y ∧ y ≤ 3) (ht : 0 ≤ t) (hday : t ≤ 364 ∨ y = 3 ∧ t = 365 ∧ (q < 24 ∨ c = 3)) :
    (doe - doe / 1460 + doe / 36524 - doe / 146096) / 365 = 100 * c + 4 * q + y := by
  have hcentury : doe / 36524 - doe / 146096 = c := by
    obtain ⟨r, hr⟩ : ∃ r, r = 1461 * q + 365 * y + t := ⟨_, rfl⟩
    have hlast : r ≤ 36523 ∨ c = 3 ∧ r = 36524 := by omega
    omega
  have hcycle : doe / 1460 = 25 * c + q ∧ t ≤ 364 ∨ doe / 1460 = 25 * c + q + 1 ∧ 1 ≤ t ∧ t ≤ 365 := by
    omega
  rcases hcycle with ⟨he, ht⟩ | ⟨he, ht⟩
  · omega
  · omega

theorem yoe_days {doe c q y t : Int} (hdoe : doe = 36524 * c + 1461 * q + 365 * y + t)
    (hq : 0 ≤ q ∧ q ≤ 24) (hy : 0 ≤ y ∧ y ≤ 3) :
    doe - (365 * (100 * c + 4 * q + y) + (100 * c + 4 * q + y) / 4 - (100 * c + 4 * q + y) / 100) = t := by
  omega

/-- **The date of a day**: `mp` months and some days after the first of March of the year `y`. -/
theorem civilFromDays_spec (days : Int) : ∃ y mp day : Int, 0 ≤ mp ∧ mp ≤ 11 ∧
      civilFromDays days = (if mp < 10 then y else y + 1, if mp < 10 then mp + 3 else mp - 9, day) ∧
      days = monthStart (12 * y + mp) + (day - 1) := by
  obtain ⟨era, hera⟩ : ∃ era, era = (days + 719468) / 146097 := ⟨_, rfl⟩
  obtain ⟨doe, hdoe⟩ : ∃ doe, doe = days + 719468 - era * 146097 := ⟨_, rfl⟩
  obtain ⟨c, q, y, t, hdigits, hc, hq, hy, ht, hday⟩ := @era_digits doe (by omega) (by omega)
  have hyears : 0 ≤ 100 * c + 4 * q + y ∧ 100 * c + 4 * q + y < 400 := by omega
  have hyoe := yoe_eq hdigits hc hq hy ht hday
  have hdoy := yoe_days hdigits hq hy
  generalize 100 * c + 4 * q + y = yoe at hyoe hdoy hyears
  obtain ⟨mp, hmp⟩ : ∃ mp, mp = (5 * t + 2) / 153 := ⟨_, rfl⟩
  have hmp0 : 0 ≤ mp ∧ mp ≤ 11 := by omega
  refine ⟨yoe + era * 400, mp, t - (153 * mp + 2) / 5 + 1, hmp0.1, hmp0.2, ?_, ?_⟩
  · simp only [civilFromDays, ← hera, ← hdoe, hyoe, hdoy, ← hmp]
    by_cases h10 : mp < 10
    · simp [h10, show ¬ mp + 3 ≤ 2 by omega]
    · simp [h10, show mp - 9 ≤ 2 by omega]
  · have hdiv : (12 * (yoe + era * 400) + mp) / 12 = yoe + era * 400 := by omega
    have hmod : (12 * (yoe + era * 400) + mp) % 12 = mp := by omega
    have hera := marchStart_era hyears.1 hyears.2 era
    rw [monthStart, hdiv, hmod, hera]
    omega

/-- `AddMonthsUTC` moves the time by the days between the first of the two months. -/
theorem addMonthsUTC_eq (unixTime : Int) : ∃ m, ∀ months, addMonthsUTC unixTime months =
      unixTime + 86400 * (monthStart (m + months) - monthStart m) := by
  obtain ⟨y, mp, day, h0, h11, hcivil, hdays⟩ := civilFromDays_spec (unixTime / 86400)
  refine ⟨12 * y + mp, fun months => ?_⟩
  have hmonth : daysFromCivil ((if mp < 10 then y else y + 1) + ((if mp < 10 then mp + 3 else mp - 9) -
      1 + months) / 12) (((if mp < 10 then mp + 3 else mp - 9) - 1 + months) % 12 + 1) 1 =
        monthStart (12 * y + mp + months) := by
    have hmarch := @daysFromCivil_march ((12 * y + mp + months) / 12) ((12 * y + mp + months) % 12)
      (by omega) (by omega) 1
    rw [Int.mul_ediv_add_emod, Int.sub_self, Int.add_zero] at hmarch
    rw [← hmarch]
    congr 1
    · split <;> split <;> omega
    · split <;> split <;> omega
  simp only [addMonthsUTC, hcivil, hmonth]
  omega

theorem addMonthsUTC_bounds (unixTime : Int) (j k : Nat) :
    addMonthsUTC unixTime j + 2419200 * k ≤ addMonthsUTC unixTime (j + k : Nat) ∧
      addMonthsUTC unixTime (j + k : Nat) ≤ addMonthsUTC unixTime j + 2678400 * k := by
  obtain ⟨m, hm⟩ := addMonthsUTC_eq unixTime
  have h := monthStart_add (m + j) k
  rw [hm, hm, show m + ((j + k : Nat) : Int) = m + j + k by omega]
  omega

theorem addMonthsUTC_zero (unixTime : Int) : addMonthsUTC unixTime 0 = unixTime := by
  obtain ⟨m, hm⟩ := addMonthsUTC_eq unixTime
  rw [hm, Int.add_zero]
  omega

/-! ## The lock time of a script -/

/-- **A script that starts with a lock time has checked it.** -/
theorem eval_lockTime {ctx : EvalContext} {n : Int} {rest : CScript} {stack stack' : List (List UInt8)} (h16 : 16 < n)
    (hmax : n < 18446744073709551616) (hflag : hasFlag ctx.flags SCRIPT_VERIFY_CHECKLOCKTIMEVERIFY = true)
    (hscript : ctx.script = pushInt64 n ++ OP_CHECKLOCKTIMEVERIFY :: rest) (heval : evalScript ctx stack = .ok stack') :
    ctx.checker.checkLockTime n = true := by
  obtain ⟨s', fuel, hfuel, h, -, -⟩ := evalScript_ok heval
  have hlen := @serializeScriptNum_length n (by omega)
  rw [hscript, pushInt64_eq h16, List.cons_append] at h hfuel
  have hsize : (UInt8.ofNat (serializeScriptNum n).length).toNat = (serializeScriptNum n).length := by
    rw [UInt8.toNat_ofNat']
    omega
  have hpush : UInt8.ofNat (serializeScriptNum n).length < OP_PUSHDATA1 := by
    rw [UInt8.lt_iff_toNat_lt, hsize]
    show _ < 76
    omega
  obtain ⟨n1, fuel1, hfuel1, h⟩ := evalLoop_push hpush hsize.symm hfuel h
  obtain ⟨n2, s2, fuel2, h2, -, -⟩ := evalLoop_exec (by decide) rfl hfuel1 h
  obtain ⟨-, top, st, nLockTime, hst, hnum, hcheck⟩ := execOp_checkLockTime hflag h2
  obtain ⟨rfl, -⟩ := hst
  have hvalue : nLockTime = n := by
    unfold scriptNum at hnum
    split at hnum
    · cases hnum
    · split at hnum
      · cases hnum
      · cases hnum
        exact setVch_serialize (by omega) hmax
  rw [← hvalue]
  exact hcheck

/-- A transaction that meets a lock time above the threshold is itself locked until then. -/
theorem txCheckLockTime_ok {c : Crypto} {tx : CTransaction} {nIn : Nat} {amount n : Int} (hn : LOCKTIME_THRESHOLD ≤ n)
    (h : (transactionSignatureChecker c tx nIn amount).checkLockTime n = true) :
    LOCKTIME_THRESHOLD ≤ (tx.nLockTime.toNat : Int) ∧ n ≤ tx.nLockTime.toNat ∧
      ∃ txin ∈ tx.vin, txin.isFinal = false := by
  simp only [transactionSignatureChecker, txCheckLockTime] at h
  split at h
  · cases h
  · rename_i htype
    split at h
    · cases h
    · split at h
      · cases h
      · rename_i txin hin
        simp only [Bool.not_eq_true', Bool.or_eq_false_iff, decide_eq_false_iff_not, not_and] at htype
        refine ⟨?_, by omega, txin, List.mem_of_getElem? hin, by simpa using h⟩
        by_contra hlt
        apply htype
        · omega
        · omega

/-- A final transaction with a lock time above the threshold and an input that is not final stands in a
    block after that time. -/
theorem isFinalTx_locked {adjustedTime nBlockHeight nBlockTime : Int} {tx : CTransaction}
    (hlock : LOCKTIME_THRESHOLD ≤ (tx.nLockTime.toNat : Int)) (hin : ∃ txin ∈ tx.vin, txin.isFinal = false)
    (htime : nBlockTime ≠ 0) (h : isFinalTx adjustedTime tx nBlockHeight nBlockTime = true) :
    (tx.nLockTime.toNat : Int) < nBlockTime := by
  obtain ⟨txin, hmem, hfinal⟩ := hin
  have hzero : tx.nLockTime ≠ 0 := by
    intro hz
    rw [hz] at hlock
    revert hlock
    decide
  have hall : tx.vin.all CTxIn.isFinal = false := by
    simp only [List.all_eq_false]
    exact ⟨txin, hmem, by simp [hfinal]⟩
  simp only [isFinalTx, htime, if_false, hall, Bool.or_false, Bool.or_eq_true, beq_iff_eq, hzero,
    false_or, decide_eq_true_eq, if_neg (by omega : ¬ (tx.nLockTime.toNat : Int) < LOCKTIME_THRESHOLD)] at h
  exact h

/-! ## The tranches -/

theorem unlockTime_lt (p : Params) {i j : Nat} (hij : i < j) : unlockTime p i < unlockTime p j := by
  obtain ⟨k, rfl⟩ := Nat.exists_eq_add_of_lt hij
  have h := (addMonthsUTC_bounds p.genesisTime (12 + i) (k + 1)).1
  have hi : ((12 + i : Nat) : Int) = VESTING_CLIFF_MONTHS + i := by
    simp [VESTING_CLIFF_MONTHS]
  have hj : ((12 + i + (k + 1) : Nat) : Int) = VESTING_CLIFF_MONTHS + (i + k + 1 : Nat) := by
    omega
  rw [hi, hj] at h
  unfold unlockTime
  omega

theorem unlockTime_range (p : Params) {i : Nat} (hi : i < 36) :
    p.genesisTime ≤ unlockTime p i ∧ unlockTime p i ≤ p.genesisTime + 125884800 := by
  have h := addMonthsUTC_bounds p.genesisTime 0 (12 + i)
  have hcast : ((0 + (12 + i) : Nat) : Int) = VESTING_CLIFF_MONTHS + i := by
    simp [VESTING_CLIFF_MONTHS]
  rw [hcast, Int.natCast_zero, addMonthsUTC_zero] at h
  unfold unlockTime
  omega

/-- **The team allocation is vested as scheduled.** The tranches add up to it, their unlock times increase, and a
    transaction that spends a tranche is final only in a block after its unlock time. -/
theorem teamVesting_locked {p : Params} (hlo : LOCKTIME_THRESHOLD ≤ p.genesisTime) (hhi : p.genesisTime < 4294967296) :
    ∃ outs keyID, getTeamVestingOutputs p = .ok outs ∧ (outs.map CTxOut.nValue).sum = teamFounders.amount ∧
      (∀ i j : Nat, i < j → unlockTime p i < unlockTime p j) ∧
      ∀ (i : Nat) (out : CTxOut), outs[i]? = some out →
        out.scriptPubKey = getCLTVPayToPubKeyHash (unlockTime p i) keyID ∧
        ∀ (c : Crypto) (tx : CTransaction) (nIn : Nat) (txin : CTxIn) (flags : UInt32)
          (sigversion : SigVersion) (adjustedTime nHeight : Int) (block : CBlock),
          tx.vin[nIn]? = some txin →
          hasFlag flags SCRIPT_VERIFY_CHECKLOCKTIMEVERIFY = true →
          verifyScript c txin.scriptSig out.scriptPubKey flags
            (transactionSignatureChecker c tx nIn out.nValue) sigversion = .ok () →
          block.nTime ≠ 0 → isFinalTx adjustedTime tx nHeight block.getBlockTime = true →
            unlockTime p i < block.getBlockTime := by
  obtain ⟨keyID, houts⟩ := getTeamVestingOutputs_ok p
  refine ⟨_, keyID, houts, ?_, fun i j hij => unlockTime_lt p hij, ?_⟩
  · rfl
  intro i out hout
  rw [List.getElem?_map, Option.map_eq_some_iff] at hout
  obtain ⟨i', hi', rfl⟩ := hout
  rw [List.getElem?_eq_some_iff] at hi'
  obtain ⟨hi, rfl⟩ := hi'
  rw [List.getElem_range]
  refine ⟨rfl, ?_⟩
  intro c tx nIn txin flags sigversion adjustedTime nHeight block _ hflag hverify htime hfinal
  obtain ⟨hgenesis, hlast⟩ := unlockTime_range p hi
  obtain ⟨stack, stack', -, heval, -⟩ := verifyScript_ok hverify
  have hscript : getCLTVPayToPubKeyHash (unlockTime p i) keyID = pushInt64 (unlockTime p i) ++
      OP_CHECKLOCKTIMEVERIFY :: OP_DROP :: OP_DUP :: OP_HASH160 :: (pushData keyID ++
        [OP_EQUALVERIFY, OP_CHECKSIG]) := by
    simp [getCLTVPayToPubKeyHash]
  have hlow : 16 < unlockTime p i := by
    have : (500000000 : Int) ≤ p.genesisTime := hlo
    omega
  have hmax : unlockTime p i < 18446744073709551616 := by omega
  have hcheck := eval_lockTime hlow hmax hflag hscript heval
  have hunlock : LOCKTIME_THRESHOLD ≤ unlockTime p i := by omega
  obtain ⟨hlock, hle, hin⟩ := txCheckLockTime_ok hunlock hcheck
  have hblock : block.getBlockTime ≠ 0 := by
    intro hz
    apply htime
    rw [CBlock.getBlockTime, Int.natCast_eq_zero] at hz
    exact UInt32.toNat_inj.mp hz
  have := isFinalTx_locked hlock hin hblock hfinal
  omega

/-- The hash of the team's key on the main network. -/
def teamKeyID : List UInt8 := ((parseHex teamFounders.scriptPubKeyHex).drop 3).take 20

/-- Hash functions under which every key is the team's, and signatures that are always valid. -/
def teamCrypto : Crypto where
  ripemd160 _ := Vector.ofFn fun i => teamKeyID.getD i 0
  sha1 _ := Vector.replicate 20 0
  sha256 _ := Vector.replicate 32 0
  ecdsaVerify _ _ _ := true
  checkLowS _ := true
  signatureHash _ _ _ _ _ _ := 0

/-- A spend of the first tranche, locked until its unlock time. -/
def trancheSpend : CTransaction :=
  ⟨3, 1, 0, [⟨⟨1, 5⟩, pushData [0x30, 0x06, 0x02, 0x01, 0x01, 0x02, 0x01, 0x01, SIGHASH_ALL] ++
    pushData (0x02 :: List.replicate 32 7), 0⟩], [⟨0, [OP_1]⟩], 1817467200, none, none⟩

def trancheBlock (nTime : UInt32) : CBlock := ⟨9, 8, 0, 0, nTime, 0, 0, 0, [trancheSpend], []⟩

def firstTranche : CTxOut :=
  ⟨20000000000000000, getCLTVPayToPubKeyHash (unlockTime mainParams 0) teamKeyID⟩

theorem trancheSpend_verified : (getTeamVestingOutputs mainParams).toOption.bind (·[0]?) = some firstTranche ∧
      unlockTime mainParams 0 = 1817467200 ∧
      ∃ txin, trancheSpend.vin[0]? = some txin ∧ verifyScript teamCrypto txin.scriptSig firstTranche.scriptPubKey
          (SCRIPT_VERIFY_P2SH ||| SCRIPT_VERIFY_DERSIG ||| SCRIPT_VERIFY_CHECKLOCKTIMEVERIFY)
          (transactionSignatureChecker teamCrypto trancheSpend 0 firstTranche.nValue) .SIGVERSION_BASE = .ok () := by
  refine ⟨by decide +kernel, by decide +kernel, _, rfl, by decide +kernel⟩

theorem trancheSpend_after_unlock : isFinalTx 0 trancheSpend 800 (trancheBlock 1817467201).getBlockTime = true ∧
      unlockTime mainParams 0 < (trancheBlock 1817467201).getBlockTime := by
  have hfinal : isFinalTx 0 trancheSpend 800 (trancheBlock 1817467201).getBlockTime = true := by decide
  obtain ⟨houts, -, txin, hin, hverify⟩ := trancheSpend_verified
  obtain ⟨outs, _, hok, -, -, htranche⟩ := @teamVesting_locked mainParams (by decide) (by decide)
  rw [hok] at houts
  exact ⟨hfinal, (htranche 0 firstTranche houts).2 teamCrypto trancheSpend 0 txin _ _ 0 800
    (trancheBlock 1817467201) hin (by decide) hverify (by decide) hfinal⟩

/-- In a block of time 0 the spend passes `IsFinalTx` as soon as the node's clock is past the unlock
    time, since that time is then read in the place of the block's. -/
theorem trancheSpend_time_zero : (getTeamVestingOutputs mainParams).toOption.bind (·[0]?) = some firstTranche ∧
      (∃ txin, trancheSpend.vin[0]? = some txin ∧ verifyScript teamCrypto txin.scriptSig firstTranche.scriptPubKey
          (SCRIPT_VERIFY_P2SH ||| SCRIPT_VERIFY_DERSIG ||| SCRIPT_VERIFY_CHECKLOCKTIMEVERIFY)
          (transactionSignatureChecker teamCrypto trancheSpend 0 firstTranche.nValue) .SIGVERSION_BASE = .ok ()) ∧
      isFinalTx 1817467201 trancheSpend 800 (trancheBlock 0).getBlockTime = true ∧
      (trancheBlock 0).getBlockTime < unlockTime mainParams 0 := by
  obtain ⟨houts, hunlock, hverify⟩ := trancheSpend_verified
  refine ⟨houts, hverify, by decide, ?_⟩
  decide

end KrovaCoin
