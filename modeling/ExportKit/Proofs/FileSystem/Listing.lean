import ExportKit.Proofs.FileSystem.Reach

/-!
Listing a directory: each entry whose name can be spelled occurs once, in byte order.
-/
namespace ExportKit

theorem Name.IsProper.of_isValid {name : Name} (h : name.isValid) : name.IsProper := by
  simp only [Name.isValid, Bool.and_eq_true, decide_eq_true_eq, Bool.not_eq_true',
    List.contains_eq_mem, decide_eq_false_iff_not] at h
  obtain ⟨⟨⟨⟨⟨hNil, -⟩, -⟩, hSlash⟩, hDot⟩, hDots⟩ := h
  exact ⟨hNil, hSlash, hDot, hDots⟩

/-- A directory can hold exactly the proper names that are not too long and hold no zero byte. -/
theorem Name.isValid_iff {name : Name} :
    name.isValid ↔ name.IsProper ∧ name.length ≤ maxName ∧ 0 ∉ name := by
  constructor
  · intro h
    refine ⟨.of_isValid h, ?_⟩
    simp only [Name.isValid, Bool.and_eq_true, decide_eq_true_eq, Bool.not_eq_true',
      List.contains_eq_mem, decide_eq_false_iff_not] at h
    exact ⟨h.1.1.1.1.2, h.1.1.1.2⟩
  · rintro ⟨hProper, hLength, hZero⟩
    simp [Name.isValid, hProper.ne_nil, hProper.not_mem_slash, hProper.ne_dot, hProper.ne_dots,
      hLength, hZero]

theorem nodup_eraseDups {α : Type} [BEq α] [LawfulBEq α] (items : List α) :
    items.eraseDups.Nodup := by
  induction h : items.length using Nat.strongRecOn generalizing items with
  | _ n ih =>
      cases items with
      | nil => simp
      | cons item rest =>
          have hShorter : (rest.filter fun other => !other == item).length < n := by
            have hLength := List.length_filter_le (fun other => !other == item) rest
            rw [← h, List.length_cons]
            omega
          rw [List.eraseDups_cons, List.nodup_cons]
          refine ⟨?_, ih _ hShorter _ rfl⟩
          simp [List.mem_eraseDups]

namespace Node

/-- The names in a directory are those of its entries that can be spelled. -/
theorem mem_names {node : Node} {name : Name} :
    name ∈ node.names ↔ name.isValid ∧ node.child? name ≠ none := by
  have hKeys : name ∈ node.entries.map (·.1) ↔ node.child? name ≠ none := by
    rw [child?, ne_eq, List.lookup_eq_none_iff, List.mem_map]
    constructor
    · rintro ⟨entry, hEntry, rfl⟩ hNone
      simpa using hNone entry hEntry
    · intro hSome
      apply Classical.byContradiction
      intro hNotMem
      apply hSome
      intro entry hEntry
      simpa using fun hEq => hNotMem ⟨entry, hEntry, Eq.symm hEq⟩
  rw [names, List.mem_mergeSort, List.mem_eraseDups, List.mem_filter, hKeys, and_comm]

/-- The names in a directory are listed in strictly increasing byte order. -/
theorem pairwise_names (node : Node) : node.names.Pairwise fun a b => compare a b = .lt := by
  have hSorted : node.names.Pairwise fun a b => (compare a b).isLE :=
    List.pairwise_mergeSort (fun _ _ _ => Std.TransCmp.isLE_trans)
      (fun a b => by
        have hSwap := @Std.OrientedCmp.eq_swap _ compare _ a b
        cases h : compare b a <;> simp [hSwap, h]) _
  have hNodup : node.names.Nodup :=
    (List.mergeSort_perm _ _).nodup_iff.mpr (nodup_eraseDups _)
  refine (hSorted.and hNodup).imp ?_
  intro a b ⟨hLE, hNe⟩
  cases h : compare a b with
  | lt => rfl
  | eq => exact absurd (Std.LawfulEqCmp.eq_of_compare h) hNe
  | gt => simp [h] at hLE

end Node

/-- What is found by its path in a directory is listed there. -/
theorem FileSystem.mem_names_of_status {fs : FileSystem} {path : Path} {first name : Name}
    {node child : Node} (hFirst : first.IsProper) (hName : name.IsProper)
    (hDir : fs.status (path.join ⟨first⟩) = .ok node)
    (h : fs.status ((path.join ⟨first⟩).join ⟨name⟩) = .ok child) : name ∈ node.names := by
  obtain ⟨links, location, hReaches, hAt⟩ := exists_reaches_of_status_join hFirst hDir
  obtain ⟨_, _, hReachesChild, -⟩ := exists_reaches_of_status_join hName h
  obtain ⟨between, middle, hMiddle, hLeads⟩ := hReachesChild.exists_of_join hName
  obtain ⟨rfl, rfl⟩ := hReaches.unique hMiddle
  obtain ⟨hFound, hLength⟩ := hLeads.entryAt?_singleton hName
  obtain ⟨spot, hResolve, -⟩ := exists_resolve_of_status h
  have hZero : 0 ∉ name := fun hMem =>
    (accepts_of_resolve hResolve).not_mem_zero ((Path.mem_bytes_join hName _ (by decide)).mpr
      (.inr hMem))
  rw [Node.mem_names, Name.isValid_iff]
  refine ⟨⟨hName, hLength, hZero⟩, fun hNone => hFound ?_⟩
  rw [entryAt?, at?, Node.at?_concat, hAt, Option.bind_some, hNone, Option.map_none]

end ExportKit
