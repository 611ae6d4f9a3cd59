/-!
# Places in a list

What stands at a place after one place was set, or after one more element was put at the end.
-/

namespace RequestScheduler

variable {α : Type} {l m : List α} {i j : Nat} {a b : α}

theorem set_of_getElem? (h : l[i]? = some a) : l.set i a = l := by
  obtain ⟨hi, rfl⟩ := List.getElem?_eq_some_iff.mp h
  exact List.set_getElem_self hi

theorem getElem?_set_of_some (h : l[i]? = some a) : (l.set i b)[i]? = some b :=
  List.getElem?_set_self (List.getElem?_eq_some_iff.mp h).1

/-- Where an element of a list with one place set comes from. -/
theorem getElem?_set_cases (h : (l.set i b)[j]? = some a) :
    j = i ∧ a = b ∨ j ≠ i ∧ l[j]? = some a := by
  rw [List.getElem?_set] at h
  by_cases hj : i = j
  · subst hj
    by_cases hl : i < l.length
    · simp only [hl, ↓reduceIte, Option.some.injEq] at h
      exact .inl ⟨rfl, h.symm⟩
    · simp [hl] at h
  · simp only [hj, ↓reduceIte] at h
    exact .inr ⟨Ne.symm hj, h⟩

theorem getElem?_append_of_some (h : l[i]? = some a) : (l ++ m)[i]? = some a := by
  rw [List.getElem?_append_left (List.getElem?_eq_some_iff.mp h).1, h]

theorem getElem?_of_grown (h : l <+: m) (hi : i < l.length) : m[i]? = l[i]? := by
  obtain ⟨rest, rfl⟩ := h
  exact List.getElem?_append_left hi

/-- Where an element of a list with one more at its end comes from. -/
theorem getElem?_concat_cases (h : (l ++ [a])[i]? = some b) :
    i = l.length ∧ b = a ∨ l[i]? = some b := by
  rw [List.getElem?_append] at h
  split at h
  · exact .inr h
  · rw [List.getElem?_singleton] at h
    split at h
    · exact .inl ⟨by omega, (Option.some.inj h).symm⟩
    · cases h

end RequestScheduler
