import Mathlib

/-!
# Text cut into segments by one separator

Lists over any alphabet are read as segments between occurrences of one
separator, the way `List.splitOn` cuts them. A marker is one separator-free word
with the separator on both sides. Searching for a marker and looking for an
interior segment are the same question, and a marker followed by no further
separator is the last one of the text.
-/
namespace Helmoci.SegmentedText

variable {A : Type*} [DecidableEq A]

/-- The text on either side of the last occurrence of a nonempty pattern. -/
def splitLast? (pat : List A) : List A → Option (List A × List A)
  | [] => none
  | c :: s =>
      match splitLast? pat s with
      | some (a, b) => some (c :: a, b)
      | none => if pat.isPrefixOf (c :: s) then some ([], (c :: s).drop pat.length) else none

theorem splitLast?_sound {pat s a b : List A} (h : splitLast? pat s = some (a, b)) :
    s = a ++ pat ++ b := by
  induction s generalizing a with
  | nil => simp [splitLast?] at h
  | cons c s ih =>
      simp only [splitLast?] at h
      split at h
      · rename_i a' b' hs
        simp only [Option.some.injEq, Prod.mk.injEq] at h
        obtain ⟨rfl, rfl⟩ := h
        simp only [ih hs, List.cons_append]
      · split at h
        · rename_i hp
          simp only [Option.some.injEq, Prod.mk.injEq] at h
          obtain ⟨rfl, rfl⟩ := h
          obtain ⟨t, ht⟩ := List.isPrefixOf_iff_prefix.mp hp
          simp [← ht]
        · contradiction

theorem splitLast?_eq_none_iff {pat : List A} (hp : pat ≠ []) (s : List A) :
    splitLast? pat s = none ↔ ¬ pat <:+: s := by
  induction s with
  | nil => simp [splitLast?, hp]
  | cons c s ih =>
      simp only [splitLast?, List.infix_cons_iff, not_or]
      split
      · rename_i a b hs
        have hi : pat <:+: s := by
          by_contra hn
          rw [ih.mpr hn] at hs
          contradiction
        simp [hi]
      · rename_i hs
        simp [← List.isPrefixOf_iff_prefix, ih.mp hs]

/-- Every occurrence starts no later than the one that is returned. -/
theorem splitLast?_latest {pat s a b a' b' : List A} (hp : pat ≠ [])
    (h : splitLast? pat s = some (a, b)) (hs : s = a' ++ pat ++ b') :
    a'.length ≤ a.length := by
  induction s generalizing a a' with
  | nil => simp_all
  | cons c s ih =>
      cases a' with
      | nil => simp
      | cons d a' =>
          simp only [List.cons_append, List.cons.injEq] at hs
          simp only [splitLast?] at h
          split at h
          · rename_i a₁ b₁ hr
            simp only [Option.some.injEq, Prod.mk.injEq] at h
            obtain ⟨rfl, rfl⟩ := h
            simpa using ih hr hs.2
          · rename_i hr
            exact ((splitLast?_eq_none_iff hp s).mp hr ⟨a', b', hs.2.symm⟩).elim

/-- A word between two separators. -/
def marker (x : A) (w : List A) : List A := x :: w ++ [x]

omit [DecidableEq A] in
@[simp] theorem marker_ne_nil (x : A) (w : List A) : marker x w ≠ [] := by simp [marker]

/-- No separator after a marker makes it the last one. -/
theorem splitLast?_marker {x : A} {w a b : List A} (hw : x ∉ w) (hb : x ∉ b) :
    splitLast? (marker x w) (a ++ marker x w ++ b) = some (a, b) := by
  cases h : splitLast? (marker x w) (a ++ marker x w ++ b) with
  | none => exact ((splitLast?_eq_none_iff (marker_ne_nil x w) _).mp h ⟨a, b, rfl⟩).elim
  | some p =>
      obtain ⟨a', b'⟩ := p
      have hs := splitLast?_sound h
      have hl := splitLast?_latest (marker_ne_nil x w) h rfl
      -- a later marker would put two more separators behind the first one
      have hc : a'.length = a.length := by
        rw [List.append_assoc, List.append_assoc, List.append_eq_append_iff] at hs
        obtain ⟨t, ht, hs⟩ | ⟨t, ht, -⟩ := hs
        · cases t with
          | nil => simp [ht]
          | cons y t =>
              have hn := congrArg (List.count x) hs
              obtain ⟨rfl, -⟩ : x = y ∧ _ := by simpa [marker] using hs
              simp [marker, List.count_eq_zero_of_not_mem hw,
                List.count_eq_zero_of_not_mem hb] at hn
              omega
        · simp only [ht, List.length_append] at hl ⊢
          omega
      rw [List.append_assoc, List.append_assoc] at hs
      obtain ⟨rfl, hr⟩ := List.append_inj hs hc.symm
      rw [List.append_cancel_left hr]

theorem splitOn_marker {x : A} {w : List A} (hw : x ∉ w) (a b : List A) :
    (a ++ marker x w ++ b).splitOn x = a.splitOn x ++ w :: b.splitOn x := by
  have he : a ++ marker x w ++ b = a ++ x :: (w ++ x :: b) := by simp [marker]
  rw [he, List.splitOn_append_cons_self, List.splitOn_append_cons_self_of_not_mem hw]

/-- The segments that have a separator on both sides. -/
def interior (x : A) (s : List A) : List (List A) := (s.splitOn x).tail.dropLast

omit [DecidableEq A] in
theorem mem_tail_dropLast_iff {l : List (List A)} {w : List A} :
    w ∈ l.tail.dropLast ↔ ∃ p q, p ≠ [] ∧ q ≠ [] ∧ l = p ++ w :: q := by
  constructor
  · intro h
    obtain ⟨c, l, rfl⟩ : ∃ c t, l = c :: t := by
      cases l with
      | nil => simp at h
      | cons c t => exact ⟨c, t, rfl⟩
    obtain ⟨p, q, hpq⟩ := List.append_of_mem h
    have hl : l ≠ [] := by rintro rfl; simp at h
    refine ⟨c :: p, q ++ [l.getLast hl], by simp, by simp, ?_⟩
    calc c :: l = c :: (l.dropLast ++ [l.getLast hl]) := by
          rw [List.dropLast_append_getLast hl]
      _ = c :: p ++ w :: (q ++ [l.getLast hl]) := by
          rw [show l.dropLast = p ++ w :: q from hpq]
          simp
  · rintro ⟨p, q, hp, hq, rfl⟩
    obtain ⟨c, p, rfl⟩ := List.exists_cons_of_ne_nil hp
    rw [List.cons_append, List.tail_cons, List.dropLast_append_of_ne_nil (by simp),
      List.dropLast_cons_of_ne_nil hq]
    simp

omit [DecidableEq A] in
theorem intercalate_append {sep : List A} {p q : List (List A)} (hp : p ≠ []) (hq : q ≠ []) :
    sep.intercalate (p ++ q) = sep.intercalate p ++ sep ++ sep.intercalate q := by
  induction p with
  | nil => exact (hp rfl).elim
  | cons w p ih =>
      cases p with
      | nil => simp [List.intercalate_cons_of_ne_nil hq]
      | cons v p =>
          have hv := ih (by simp)
          simp only [List.cons_append, List.append_assoc] at hv
          simp [List.intercalate_cons_cons, hv]

omit [DecidableEq A] in
theorem mem_intercalate {x c : A} {l : List (List A)} (h : c ∈ [x].intercalate l) :
    c = x ∨ ∃ w ∈ l, c ∈ w := by
  induction l with
  | nil => simp at h
  | cons w l ih =>
      cases l with
      | nil => exact Or.inr ⟨w, by simp, by simpa using h⟩
      | cons v l =>
          simp only [List.intercalate_cons_cons, List.mem_append, List.mem_singleton] at h
          rcases h with (h | h) | h
          · exact Or.inr ⟨w, by simp, h⟩
          · exact Or.inl h
          · rcases ih h with h | ⟨w', hw, hc⟩
            · exact Or.inl h
            · exact Or.inr ⟨w', List.mem_cons_of_mem _ hw, hc⟩

theorem mem_splitOn {x c : A} {s : List A} (h : c ∈ s) : c = x ∨ ∃ w ∈ s.splitOn x, c ∈ w :=
  mem_intercalate (by rwa [List.intercalate_splitOn])

theorem not_mem_of_mem_splitOn {x : A} {s w : List A} (h : w ∈ s.splitOn x) : x ∉ w := by
  induction s generalizing w with
  | nil =>
      obtain rfl : w = [] := by simpa using h
      simp
  | cons c s ih =>
      obtain ⟨v, rest, hs⟩ := List.exists_cons_of_ne_nil (List.splitOn_ne_nil x s)
      rw [List.splitOn_cons_eq_if_modifyHead, hs] at h
      rw [hs] at ih
      split at h
      · rcases List.mem_cons.mp h with rfl | h
        · simp
        · exact ih h
      · rename_i hc
        rcases List.mem_cons.mp h with rfl | h
        · simp only [List.mem_cons, not_or]
          exact ⟨fun hx => hc (by simp [hx]), ih List.mem_cons_self⟩
        · exact ih (List.mem_cons_of_mem v h)

/-- A marker occurs exactly when its word is an interior segment. -/
theorem marker_infix_iff {x : A} {w : List A} (hw : x ∉ w) (s : List A) :
    marker x w <:+: s ↔ w ∈ interior x s := by
  rw [interior, mem_tail_dropLast_iff]
  constructor
  · rintro ⟨a, b, rfl⟩
    exact ⟨a.splitOn x, b.splitOn x, by simp, by simp, splitOn_marker hw a b⟩
  · rintro ⟨p, q, hp, hq, hs⟩
    refine ⟨[x].intercalate p, [x].intercalate q, ?_⟩
    have hj : [x].intercalate (s.splitOn x) = s := List.intercalate_splitOn x
    rw [hs, intercalate_append hp (by simp), List.intercalate_cons_of_ne_nil hq] at hj
    rw [← hj]
    simp [marker]

theorem splitLast?_marker_eq_none {x : A} {w s : List A} (hw : x ∉ w) (h : w ∉ interior x s) :
    splitLast? (marker x w) s = none :=
  (splitLast?_eq_none_iff (marker_ne_nil x w) s).mpr (mt (marker_infix_iff hw s).mp h)

theorem splitLast?_marker_ne_none {x : A} {w s : List A} (hw : x ∉ w) (h : w ∈ interior x s) :
    ∃ a b, splitLast? (marker x w) s = some (a, b) := by
  cases hs : splitLast? (marker x w) s with
  | none =>
      exact ((splitLast?_eq_none_iff (marker_ne_nil x w) s).mp hs
        ((marker_infix_iff hw s).mpr h)).elim
  | some p => exact ⟨p.1, p.2, rfl⟩

end Helmoci.SegmentedText
