import Mathlib

/-!
# Maps as sorted lists

A map is the list of its members in the order of their keys, each key once. A member
takes the place of the one with its key, so that a list of members read one after another
is the map in which the last one counts.
-/
namespace Helmoci.SortedMembers

variable {K V : Type} [LinearOrder K]

/-- A member of a sorted map, in place of one with the same key. -/
def insertMember (key : K) (v : V) : List (K × V) → List (K × V)
  | [] => [(key, v)]
  | (key', v') :: members =>
    if key = key' then (key, v) :: members
    else if key < key' then (key, v) :: (key', v') :: members
    else (key', v') :: insertMember key v members

/-- The map of members in the order of their reading. -/
def toMap (members : List (K × V)) : List (K × V) :=
  members.foldl (fun m p => insertMember p.1 p.2 m) []

theorem mem_insertMember {key : K} {v : V} {members : List (K × V)} {p : K × V}
    (h : p ∈ insertMember key v members) : p = (key, v) ∨ p ∈ members := by
  induction members with
  | nil => exact Or.inl (List.mem_singleton.mp h)
  | cons q members ih =>
      obtain ⟨key', v'⟩ := q
      unfold insertMember at h
      split at h
      · rcases List.mem_cons.mp h with h | h
        · exact Or.inl h
        · exact Or.inr (List.mem_cons_of_mem _ h)
      · split at h
        · exact List.mem_cons.mp h
        · rcases List.mem_cons.mp h with h | h
          · exact Or.inr (h ▸ List.mem_cons_self)
          · exact (ih h).imp_right (List.mem_cons_of_mem _)

/-- Keys in order, each once. -/
def Sorted (members : List (K × V)) : Prop := (members.map Prod.fst).Pairwise (· < ·)

theorem sorted_cons {key : K} {v : V} {members : List (K × V)} :
    Sorted ((key, v) :: members) ↔ (∀ p ∈ members, key < p.1) ∧ Sorted members := by
  simp [Sorted]

theorem Sorted.insertMember {key : K} {v : V} {members : List (K × V)} (h : Sorted members) :
    Sorted (insertMember key v members) := by
  induction members with
  | nil => simp [Sorted, SortedMembers.insertMember]
  | cons q members ih =>
      obtain ⟨key', v'⟩ := q
      obtain ⟨hlt, hs⟩ := sorted_cons.mp h
      unfold SortedMembers.insertMember
      split
      · rename_i hk
        subst hk
        exact sorted_cons.mpr ⟨hlt, hs⟩
      · split
        · rename_i hk
          refine sorted_cons.mpr ⟨?_, h⟩
          intro p hp
          rcases List.mem_cons.mp hp with rfl | hp
          · exact hk
          · exact hk.trans (hlt p hp)
        · rename_i hne hk
          refine sorted_cons.mpr ⟨?_, ih hs⟩
          intro p hp
          rcases mem_insertMember hp with rfl | hp
          · exact lt_of_le_of_ne (not_lt.mp hk) (Ne.symm hne)
          · exact hlt p hp

theorem lookup_cons_eq [BEq K] [LawfulBEq K] (key : K) (v : V) (members : List (K × V))
    (k : K) :
    List.lookup k ((key, v) :: members) = if k = key then some v else members.lookup k := by
  split
  · rename_i h
    simp [h]
  · rename_i h
    simp [List.lookup_cons, beq_eq_false_iff_ne.mpr h]

theorem lookup_insertMember [BEq K] [LawfulBEq K] (key : K) (v : V) (members : List (K × V))
    (k : K) : (insertMember key v members).lookup k = if k = key then some v else members.lookup k := by
  induction members with
  | nil => exact lookup_cons_eq key v [] k
  | cons q members ih =>
      obtain ⟨key', v'⟩ := q
      unfold insertMember
      split
      · rename_i hk
        subst hk
        by_cases h : k = key <;> simp [lookup_cons_eq, h]
      · split
        · exact lookup_cons_eq key v _ k
        · rename_i hne _
          rw [lookup_cons_eq, lookup_cons_eq, ih]
          by_cases h : k = key
          · subst h
            simp [hne]
          · simp [h]

theorem sorted_foldl (members m : List (K × V)) (h : Sorted m) :
    Sorted (members.foldl (fun m p => insertMember p.1 p.2 m) m) := by
  induction members generalizing m with
  | nil => exact h
  | cons p members ih => exact ih _ h.insertMember

theorem sorted_toMap (members : List (K × V)) : Sorted (toMap members) :=
  sorted_foldl members [] List.Pairwise.nil

/-- A key behind all others is inserted at the end. -/
theorem insertMember_append {key : K} (v : V) {members : List (K × V)}
    (h : ∀ p ∈ members, p.1 < key) : insertMember key v members = members ++ [(key, v)] := by
  induction members with
  | nil => rfl
  | cons q members ih =>
      obtain ⟨key', v'⟩ := q
      have hlt : key' < key := h (key', v') (by simp)
      rw [insertMember, if_neg hlt.ne', if_neg hlt.not_gt, ih fun p hp => h p (by simp [hp])]
      rfl

theorem toMap_of_sorted {members : List (K × V)} (h : Sorted members) : toMap members = members := by
  have append : ∀ (members m : List (K × V)), Sorted (m ++ members) →
      members.foldl (fun m p => insertMember p.1 p.2 m) m = m ++ members := by
    intro members
    induction members with
    | nil => simp
    | cons p members ih =>
        intro m hs
        have hlt : ∀ q ∈ m, q.1 < p.1 := by
          intro q hq
          have hp : ((m ++ p :: members).map Prod.fst).Pairwise (· < ·) := hs
          rw [List.map_append] at hp
          exact (List.pairwise_append.mp hp).2.2 q.1 (List.mem_map_of_mem hq) p.1 (by simp)
        rw [List.foldl_cons, insertMember_append p.2 hlt]
        have happ : m ++ [(p.1, p.2)] ++ members = m ++ p :: members := by simp
        rw [ih _ (happ ▸ hs), happ]
  exact append members [] h

theorem mem_toMap {members : List (K × V)} {p : K × V} (h : p ∈ toMap members) : p ∈ members := by
  have fold : ∀ (members m : List (K × V)),
      p ∈ members.foldl (fun m p => insertMember p.1 p.2 m) m → p ∈ m ∨ p ∈ members := by
    intro members
    induction members with
    | nil => exact fun m h => Or.inl h
    | cons q members ih =>
        intro m h
        rcases ih _ h with h | h
        · rcases mem_insertMember h with rfl | h
          · exact Or.inr List.mem_cons_self
          · exact Or.inl h
        · exact Or.inr (List.mem_cons_of_mem _ h)
  rcases fold members [] h with h | h
  · contradiction
  · exact h

end Helmoci.SortedMembers
