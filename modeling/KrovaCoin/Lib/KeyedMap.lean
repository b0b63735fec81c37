import Mathlib

/-!
# Finite maps with an iteration order, and merges of one map into another

A `KMap` is an association list with distinct keys. Its list order is the order in which a loop visits the entries, so a
statement about all `KMap`s is a statement about all iteration orders.

* `KMap.set` — write or erase one key.
* `KMap.merge` — a loop over the entries of one map that updates the same key of another.
* `KMap.merge_none`, `KMap.merge_some` — what such a loop leaves at each key, whatever the order.
* `KMap.merge_ok` — it succeeds when every single update does.
-/

namespace KrovaCoin.Lib

/-- A finite map in iteration order. -/
abbrev KMap (K V : Type) := AList fun _ : K => V

namespace KMap

variable {K V W E : Type} [DecidableEq K] {f : K → V → Option W → Except E (Option W)}

/-- The value at a key. -/
def get (m : KMap K V) (k : K) : Option V := AList.lookup k m

/-- Writes `some v`, erases on `none`. -/
def set (m : KMap K V) (k : K) : Option V → KMap K V
  | some v => AList.insert k v m
  | none => AList.erase k m

@[simp] theorem get_empty (k : K) : get (∅ : KMap K V) k = none := AList.lookup_empty k

theorem get_of_entries_nil {m : KMap K V} (h : m.entries = []) (k : K) : get m k = none := by
  simp [get, AList.lookup, h]

theorem get_set (m : KMap K V) (k : K) (v : Option V) (k' : K) :
    get (set m k v) k' = if k' = k then v else get m k' := by
  by_cases h : k' = k
  · subst h
    cases v with
    | none => simp [get, set, AList.lookup_erase]
    | some v => simp [get, set, AList.lookup_insert]
  · cases v with
    | none => simp [get, set, h, AList.lookup_erase_ne]
    | some v => simp [get, set, h, AList.lookup_insert_ne]

@[simp] theorem get_set_self (m : KMap K V) (k : K) (v : Option V) : get (set m k v) k = v := by
  simp [get_set]

theorem get_set_ne (m : KMap K V) {k k' : K} (v : Option V) (h : k' ≠ k) : get (set m k v) k' = get m k' := by
  simp [get_set, h]

/-- `for (entry : entries) m[entry.key] = f(entry, m[entry.key])`, stopping at the first error. -/
def mergeLoop (f : K → V → Option W → Except E (Option W)) :
    List (Sigma fun _ : K => V) → KMap K W → Except E (KMap K W)
  | [], m => .ok m
  | ⟨k, v⟩ :: rest, m =>
    match f k v (get m k) with
    | .error e => .error e
    | .ok w => mergeLoop f rest (set m k w)

/-- The loop over all entries of `child`. -/
def merge (f : K → V → Option W → Except E (Option W)) (child : KMap K V) (m : KMap K W) : Except E (KMap K W) :=
  mergeLoop f child.entries m

theorem mergeLoop_spec : ∀ {l : List (Sigma fun _ : K => V)} {m m' : KMap K W}, l.NodupKeys →
      mergeLoop f l m = .ok m' → ∀ k,
        match l.dlookup k with
        | none => get m' k = get m k
        | some v => f k v (get m k) = .ok (get m' k)
  | [], m, m', _, h, k => by
    cases h
    rfl
  | ⟨k0, v0⟩ :: rest, m, m', hnd, h, k => by
    rw [List.nodupKeys_cons] at hnd
    unfold mergeLoop at h
    split at h
    · cases h
    · rename_i w hw
      have ih := mergeLoop_spec hnd.2 h k
      by_cases hk : k = k0
      · subst hk
        rw [List.dlookup_eq_none.mpr hnd.1] at ih
        rw [List.dlookup_cons_eq]
        rw [get_set_self] at ih
        rw [ih]
        exact hw
      · rw [List.dlookup_cons_ne _ _ hk]
        rwa [get_set_ne m w hk] at ih

theorem merge_none {child : KMap K V} {m m' : KMap K W} {k : K} (h : merge f child m = .ok m')
    (hk : get child k = none) : get m' k = get m k := by
  have hspec := mergeLoop_spec child.nodupKeys h k
  rwa [show child.entries.dlookup k = none from hk] at hspec

theorem merge_some {child : KMap K V} {m m' : KMap K W} {k : K} {v : V} (h : merge f child m = .ok m')
    (hk : get child k = some v) : f k v (get m k) = .ok (get m' k) := by
  have hspec := mergeLoop_spec child.nodupKeys h k
  rwa [show child.entries.dlookup k = some v from hk] at hspec

theorem mergeLoop_ok : ∀ {l : List (Sigma fun _ : K => V)} {m : KMap K W}, l.NodupKeys →
      (∀ k v, ⟨k, v⟩ ∈ l → ∃ w, f k v (get m k) = .ok w) → ∃ m', mergeLoop f l m = .ok m'
  | [], m, _, _ => ⟨m, rfl⟩
  | ⟨k0, v0⟩ :: rest, m, hnd, h => by
    rw [List.nodupKeys_cons] at hnd
    obtain ⟨w, hw⟩ := h k0 v0 List.mem_cons_self
    obtain ⟨m', hm'⟩ := mergeLoop_ok (m := set m k0 w) hnd.2 fun k v hkv => by
      have hne : k ≠ k0 := by
        intro heq
        subst heq
        have hmem := List.mem_keys_of_mem hkv
        exact hnd.1 hmem
      rw [get_set_ne m w hne]
      exact h k v (List.mem_cons_of_mem _ hkv)
    refine ⟨m', ?_⟩
    unfold mergeLoop
    rw [hw]
    exact hm'

theorem merge_ok {child : KMap K V} {m : KMap K W}
    (h : ∀ k v, get child k = some v → ∃ w, f k v (get m k) = .ok w) : ∃ m', merge f child m = .ok m' :=
  mergeLoop_ok child.nodupKeys fun k v hkv => h k v (AList.mem_lookup_iff.mpr hkv)

end KMap

end KrovaCoin.Lib
