import KrovaCoin.MempoolTrim

/-!
# The orders of the memory pool (`txmempool.h`)

The indices of `mapTx` sort the entries by fee rates. A comparator decides between two rates by the products of the fee
of one entry with the size of the other; the products are exact here.

* `compareByDescendantScore`, `compareByScore`, `compareByAncestorFee` — the comparators.

Principal result: `orders_strictWeak_iff`.
-/

namespace KrovaCoin

/-- An entry with its time, and with sizes that are not zero. -/
structure SizedEntry extends MemPoolEntry where
  nTime : Int
  size_pos : 0 < toMemPoolEntry.getTxSize
  descendants_pos : 0 < withDescendants.nSize.toNat
  ancestors_pos : 0 < withAncestors.nSize.toNat

namespace SizedEntry

def useDescendantScore (a : SizedEntry) : Bool :=
  let f1 := a.getModifiedFee * a.withDescendants.nSize.toNat
  let f2 := a.withDescendants.nModFees * a.getTxSize
  decide (f2 > f1)

/-- The fee and the size that stand for an entry in the first comparator. -/
def descendantScore (a : SizedEntry) : Int × Nat :=
  if a.useDescendantScore then (a.withDescendants.nModFees, a.withDescendants.nSize.toNat)
  else (a.getModifiedFee, a.getTxSize)

def compareByDescendantScore (a b : SizedEntry) : Bool :=
  let f1 := a.descendantScore.1 * b.descendantScore.2
  let f2 := a.descendantScore.2 * b.descendantScore.1
  if f1 = f2 then decide (a.nTime ≥ b.nTime) else decide (f1 < f2)

def compareByScore (a b : SizedEntry) : Bool :=
  let f1 := a.getModifiedFee * b.getTxSize
  let f2 := b.getModifiedFee * a.getTxSize
  if f1 = f2 then decide (hashBytes b.tx.hash < hashBytes a.tx.hash) else decide (f1 > f2)

def compareByAncestorFee (a b : SizedEntry) : Bool :=
  let f1 := a.withAncestors.nModFees * b.withAncestors.nSize.toNat
  let f2 := a.withAncestors.nSize.toNat * b.withAncestors.nModFees
  if f1 = f2 then decide (hashBytes a.tx.hash < hashBytes b.tx.hash) else decide (f1 > f2)

/-! ## Rates -/

/-- A fee rate. -/
def rate (fee : Int) (size : Nat) : ℚ := fee / size

theorem rate_lt_iff {f g : Int} {m n : Nat} (hm : 0 < m) (hn : 0 < n) : rate f m < rate g n ↔ f * n < m * g := by
  rw [rate, rate, div_lt_div_iff₀ (by exact_mod_cast hm) (by exact_mod_cast hn), mul_comm (g : ℚ)]
  norm_cast

theorem rate_eq_iff {f g : Int} {m n : Nat} (hm : 0 < m) (hn : 0 < n) : rate f m = rate g n ↔ f * n = m * g := by
  rw [rate, rate, div_eq_div_iff (by exact_mod_cast hm.ne') (by exact_mod_cast hn.ne'), mul_comm (g : ℚ)]
  norm_cast

theorem tieBreak_iff {f1 f2 : Int} {below tie : Prop} [Decidable below] [Decidable tie] (h : f1 = f2 → ¬ below) :
    (if f1 = f2 then decide tie else decide below) = true ↔ below ∨ f1 = f2 ∧ tie := by
  split <;> rename_i heq <;> simp [heq, h]

theorem descendantScore_pos (a : SizedEntry) : 0 < a.descendantScore.2 := by
  unfold descendantScore
  split
  · exact a.descendants_pos
  · exact a.size_pos

/-- The first comparator is the reflexive order by rate, and by time from the latest to the earliest. -/
theorem compareByDescendantScore_iff (a b : SizedEntry) : compareByDescendantScore a b = true ↔
      toLex (rate a.descendantScore.1 a.descendantScore.2, OrderDual.toDual a.nTime) ≤
        toLex (rate b.descendantScore.1 b.descendantScore.2, OrderDual.toDual b.nTime) := by
  rw [Prod.Lex.toLex_le_toLex, rate_lt_iff a.descendantScore_pos b.descendantScore_pos,
    rate_eq_iff a.descendantScore_pos b.descendantScore_pos, OrderDual.toDual_le_toDual]
  exact tieBreak_iff fun h => h.not_lt

theorem compareByScore_iff (a b : SizedEntry) : compareByScore a b = true ↔
      toLex (rate b.getModifiedFee b.getTxSize, hashBytes b.tx.hash) <
        toLex (rate a.getModifiedFee a.getTxSize, hashBytes a.tx.hash) := by
  rw [Prod.Lex.toLex_lt_toLex, rate_lt_iff b.size_pos a.size_pos, rate_eq_iff b.size_pos a.size_pos,
    mul_comm (b.getTxSize : Int)]
  exact (tieBreak_iff fun h => h.not_gt).trans (or_congr_right (and_congr_left' eq_comm))

theorem compareByAncestorFee_iff (a b : SizedEntry) : compareByAncestorFee a b = true ↔
      toLex (OrderDual.toDual (rate a.withAncestors.nModFees a.withAncestors.nSize.toNat), hashBytes a.tx.hash) <
        toLex (OrderDual.toDual (rate b.withAncestors.nModFees b.withAncestors.nSize.toNat), hashBytes b.tx.hash) := by
  rw [Prod.Lex.toLex_lt_toLex, OrderDual.toDual_lt_toDual, OrderDual.toDual_inj,
    rate_lt_iff b.ancestors_pos a.ancestors_pos, rate_eq_iff a.ancestors_pos b.ancestors_pos,
    mul_comm b.withAncestors.nModFees, mul_comm (b.withAncestors.nSize.toNat : Int)]
  exact tieBreak_iff fun h => h.not_gt

/-- A comparator that compares keys of a linear order is a strict weak order. -/
theorem strictWeak_of_key {α : Type} [LinearOrder α] {S : Set SizedEntry} {r : SizedEntry → SizedEntry → Bool}
    (key : SizedEntry → α) (hr : ∀ a b, r a b = true ↔ key a < key b) :
    IsStrictWeakOrder S fun a b => r a b = true := by
  simp only [hr]
  exact {
    irrefl := fun a => lt_irrefl _
    trans := fun a b c => lt_trans
    incomp_trans := fun a b c hab hbc => by
      simp only [not_lt] at *
      exact ⟨hbc.1.trans hab.1, hab.2.trans hbc.2⟩ }

/-- **Two comparators are strict weak orders on every set of entries.** The order by descendant score is total and
    transitive, but holds between an entry and itself: it is a strict weak order on no set that has an entry. -/
theorem orders_strictWeak_iff (S : Set SizedEntry) : IsStrictWeakOrder S (fun a b => compareByScore a b = true) ∧
      IsStrictWeakOrder S (fun a b => compareByAncestorFee a b = true) ∧
      (∀ a b, compareByDescendantScore a b = true ∨ compareByDescendantScore b a = true) ∧
      (∀ a b c, compareByDescendantScore a b = true → compareByDescendantScore b c = true →
        compareByDescendantScore a c = true) ∧
      (IsStrictWeakOrder S (fun a b => compareByDescendantScore a b = true) ↔ S = ∅) := by
  refine ⟨strictWeak_of_key (fun a => OrderDual.toDual (toLex (rate a.getModifiedFee a.getTxSize, hashBytes a.tx.hash)))
    compareByScore_iff, strictWeak_of_key _ compareByAncestorFee_iff, ?_, ?_, ?_⟩
  · simp only [compareByDescendantScore_iff]
    exact fun a b => le_total _ _
  · simp only [compareByDescendantScore_iff]
    exact fun a b c => le_trans
  · refine ⟨fun h => Set.eq_empty_of_forall_notMem fun a ha => ?_, ?_⟩
    · exact h.irrefl ⟨a, ha⟩ ((compareByDescendantScore_iff a a).mpr le_rfl)
    · rintro rfl
      exact { irrefl := fun a => a.2.elim, trans := fun a => a.2.elim, incomp_trans := fun a => a.2.elim }

def freeEntry : SizedEntry :=
  { MemPoolEntry.new Trim.freeTx 0 0 with
    nTime := 0
    size_pos := by decide
    descendants_pos := by decide
    ancestors_pos := by decide }

/-- An entry comes before itself. -/
theorem freeEntry_before_itself : compareByDescendantScore freeEntry freeEntry = true := by decide

end SizedEntry

end KrovaCoin
