import ExportKit.SortedMap
import Mathlib.Algebra.GroupWithZero.Nat

/-!
Entries that are already in increasing order of their keys make up the map of their list. A map is
determined by the value of each key, and the totals of some entries are the sums of the values that
each key has among them.
-/
namespace ExportKit.SortedMap

variable {κ ν : Type} [Ord κ] [Std.TransOrd κ] [Std.LawfulEqOrd κ]

omit [Std.LawfulEqOrd κ] in
/-- An entry whose key comes after all others goes to the end. -/
theorem insertEntry_of_lt {key : κ} {value : ν} {entries : List (κ × ν)}
    (h : ∀ entry ∈ entries, compare entry.1 key = .lt) :
    insertEntry key value entries = entries ++ [(key, value)] := by
  induction entries with
  | nil => rfl
  | cons first rest ih =>
      have hFirst : compare key first.1 = .gt := Std.OrientedCmp.gt_of_lt (h first (by simp))
      have hRest := ih fun entry hEntry => h entry (List.mem_cons_of_mem _ hEntry)
      simp [insertEntry, hFirst, hRest]

omit [Std.TransOrd κ] [Std.LawfulEqOrd κ] in
theorem eq_of_entries_eq {left right : SortedMap κ ν} (h : left.entries = right.entries) :
    left = right := by
  cases left
  cases right
  simp_all

/-- Entries that are inserted in order, after all that are there, are appended. -/
theorem entries_foldl_insert (map : SortedMap κ ν) {entries : List (κ × ν)}
    (h : (map.entries ++ entries).Pairwise fun a b => compare a.1 b.1 = .lt) :
    (entries.foldl (fun map entry => map.insert entry.1 entry.2) map).entries =
      map.entries ++ entries := by
  induction entries generalizing map with
  | nil => simp
  | cons entry rest ih =>
      have hLast : ∀ other ∈ map.entries, compare other.1 entry.1 = .lt := by
        intro other hOther
        exact (List.pairwise_append.mp h).2.2 other hOther entry (by simp)
      have hInsert : (map.insert entry.1 entry.2).entries = map.entries ++ [entry] :=
        insertEntry_of_lt hLast
      rw [List.foldl_cons, ih _ (by simpa [hInsert] using h), hInsert]
      simp

/-- Listing the entries of a map and making a map of the list changes nothing. -/
theorem ofList_entries (map : SortedMap κ ν) : ofList map.entries = map := by
  apply eq_of_entries_eq
  have hSorted : ((empty : SortedMap κ ν).entries ++ map.entries).Pairwise fun a b =>
      compare a.1 b.1 = .lt := by
    simpa [empty] using map.sorted
  exact (entries_foldl_insert empty hSorted).trans (by simp [empty])

/-! Sums. -/

section Sums

variable {κ : Type} [DecidableEq κ]

/-- The sum of the values that entries have for a key, without a bound. -/
def sumOf (entries : List (κ × UInt64)) (key : κ) : Nat :=
  ((entries.filter (·.1 = key)).map (·.2.toNat)).sum

theorem sumOf_cons (entry : κ × UInt64) (rest : List (κ × UInt64)) (key : κ) :
    sumOf (entry :: rest) key =
      (if entry.1 = key then entry.2.toNat else 0) + sumOf rest key := by
  by_cases h : entry.1 = key <;> simp [sumOf, h]

theorem sumOf_of_not_mem {entries : List (κ × UInt64)} {key : κ}
    (h : key ∉ entries.map (·.1)) : sumOf entries key = 0 := by
  have hNone : entries.filter (·.1 = key) = [] := by
    rw [List.filter_eq_nil_iff]
    intro entry hEntry hKey
    exact h (List.mem_map.mpr ⟨entry, hEntry, of_decide_eq_true hKey⟩)
  rw [sumOf, hNone, List.map_nil, List.sum_nil]

end Sums

/-! Values of keys. -/

omit [Std.LawfulEqOrd κ] in
theorem ne_of_compare_lt {key other : κ} (h : compare key other = .lt) : key ≠ other := by
  rintro rfl
  simp at h

/-- The entries of a map are its keys with their values. -/
theorem mem_entries_iff {map : SortedMap κ ν} {key : κ} {value : ν} :
    (key, value) ∈ map.entries ↔ map.get? key = some value := by
  obtain ⟨entries, hSorted⟩ := map
  simp only [get?]
  induction entries with
  | nil => simp
  | cons first rest ih =>
      obtain ⟨hFirst, hRest⟩ := List.pairwise_cons.mp hSorted
      rw [List.mem_cons]
      by_cases hKey : key = first.1
      · subst hKey
        rw [List.find?_cons_of_pos (by simp), Option.map_some, Option.some_inj]
        constructor
        · rintro (hEq | hMem)
          · exact (congrArg Prod.snd hEq).symm
          · exact absurd rfl (ne_of_compare_lt (hFirst (first.1, value) hMem))
        · rintro rfl
          exact .inl rfl
      · rw [List.find?_cons_of_neg (by simpa using hKey), ← ih hRest]
        constructor
        · rintro (rfl | hMem)
          · exact absurd rfl hKey
          · exact hMem
        · exact .inr

theorem mem_keys_iff {map : SortedMap κ ν} {key : κ} :
    key ∈ map.keys ↔ ∃ value, map.get? key = some value := by
  simp only [keys, List.mem_map, Prod.exists, ← mem_entries_iff]
  constructor
  · rintro ⟨_, value, hMem, rfl⟩
    exact ⟨value, hMem⟩
  · rintro ⟨value, hMem⟩
    exact ⟨key, value, hMem, rfl⟩

/-- Maps in which each key has the same value are equal. -/
theorem ext_get? {left right : SortedMap κ ν} (h : ∀ key, left.get? key = right.get? key) :
    left = right := by
  have hNodup (map : SortedMap κ ν) : map.entries.Nodup :=
    map.sorted.imp fun hLt hEq => ne_of_compare_lt hLt (congrArg Prod.fst hEq)
  have hPerm : left.entries.Perm right.entries := by
    rw [List.perm_ext_iff_of_nodup (hNodup left) (hNodup right)]
    rintro ⟨key, value⟩
    rw [mem_entries_iff, mem_entries_iff, h]
  refine eq_of_entries_eq (hPerm.eq_of_pairwise ?_ left.sorted right.sorted)
  intro a b _ _ hLt hGt
  rw [Std.OrientedCmp.gt_of_lt hLt] at hGt
  cases hGt

/-- Filtering the keys of a map hides the values of those that do not pass. -/
theorem get?_filterKeys (map : SortedMap κ ν) (keep : κ → Bool) (key : κ) :
    (map.filterKeys keep).get? key = if keep key then map.get? key else none := by
  apply Option.ext
  intro value
  rw [← mem_entries_iff, filterKeys, List.mem_filter, mem_entries_iff]
  cases keep key <;> simp

variable [DecidableEq κ]

/-- After an insertion the key has the new value, and all others have theirs. -/
theorem get?_insert (map : SortedMap κ ν) (key : κ) (value : ν) (other : κ) :
    (map.insert key value).get? other = if other = key then some value else map.get? other := by
  obtain ⟨entries, hSorted⟩ := map
  simp only [get?, insert]
  clear hSorted
  induction entries with
  | nil =>
      by_cases hKey : other = key <;> simp [insertEntry, hKey]
  | cons first rest ih =>
      rw [insertEntry]
      split
      next =>
        by_cases hKey : other = key
        · simp [hKey]
        · rw [List.find?_cons_of_neg (by simpa using hKey), if_neg hKey]
      next hEq =>
        have hFirst : key = first.1 := Std.LawfulEqCmp.eq_of_compare hEq
        by_cases hKey : other = key
        · simp [hKey]
        · rw [List.find?_cons_of_neg (by simpa using hKey), if_neg hKey,
            List.find?_cons_of_neg (by simpa [← hFirst] using hKey)]
      next hGt =>
        by_cases hFirst : other = first.1
        · have hKey : other ≠ key := by
            rintro rfl
            simp [hFirst] at hGt
          rw [if_neg hKey, List.find?_cons_of_pos (by simpa using hFirst),
            List.find?_cons_of_pos (by simpa using hFirst)]
        · rw [List.find?_cons_of_neg (by simpa using hFirst), ih,
            List.find?_cons_of_neg (by simpa using hFirst)]

/-! Totals. -/

/-- One more entry adds to the total of its key, and leaves those of the others. -/
theorem get?_insert_add (map : SortedMap κ UInt64) (entry : κ × UInt64) (key : κ) :
    (map.insert entry.1 (((map.get? entry.1).map (· + entry.2)).getD entry.2)).get? key =
      if key = entry.1 then some ((map.get? key).getD 0 + entry.2) else map.get? key := by
  rw [get?_insert]
  split
  next hKey =>
    rw [hKey]
    cases map.get? entry.1 <;> simp
  next => rfl

/-- Entries add to the totals that there are. -/
theorem get?_foldl_add (map : SortedMap κ UInt64) (entries : List (κ × UInt64)) (key : κ) :
    (entries.foldl (fun map entry =>
        map.insert entry.1 (((map.get? entry.1).map (· + entry.2)).getD entry.2)) map).get? key =
      if key ∈ entries.map (·.1) then
        some ((map.get? key).getD 0 + UInt64.ofNat (sumOf entries key))
      else map.get? key := by
  induction entries generalizing map with
  | nil => simp
  | cons entry rest ih =>
      simp only [List.foldl_cons, ih, get?_insert_add, List.map_cons, List.mem_cons, sumOf_cons]
      by_cases hKey : key = entry.1
      · subst hKey
        simp only [if_true, true_or, Option.getD_some, UInt64.ofNat_add, UInt64.ofNat_toNat,
          ← UInt64.add_assoc]
        split
        next => rfl
        next hRest =>
          rw [sumOf_of_not_mem hRest]
          exact congrArg some (UInt64.add_zero _).symm
      · rw [if_neg hKey, if_neg (Ne.symm hKey), Nat.zero_add]
        simp only [hKey, false_or]

/-- The keys of entries have the sum of their values as total. -/
theorem get?_totals (entries : List (κ × UInt64)) (key : κ) :
    (totals entries).get? key =
      if key ∈ entries.map (·.1) then some (UInt64.ofNat (sumOf entries key)) else none := by
  have hEmpty : (empty : SortedMap κ UInt64).get? key = none := rfl
  rw [totals, get?_foldl_add, hEmpty, Option.getD_none, UInt64.zero_add]

/-- The order of the entries makes no difference to their totals. -/
theorem totals_perm {entries others : List (κ × UInt64)} (h : entries.Perm others) :
    totals entries = totals others := by
  apply ext_get?
  intro key
  have hSum : sumOf entries key = sumOf others key := ((h.filter _).map _).sum_nat
  simp only [get?_totals, (h.map Prod.fst).mem_iff, hSum]

end ExportKit.SortedMap
