/-!
# Sums over lists

Measures of a state are sums over its parts. Replacing one part changes the sum by the difference of
the old part and the new one.
-/

namespace RequestScheduler

/-- The sum of a list of numbers. -/
def total : List Nat → Nat
  | [] => 0
  | n :: ns => n + total ns

@[simp] theorem total_nil : total [] = 0 := rfl

@[simp] theorem total_cons (n : Nat) (ns : List Nat) : total (n :: ns) = n + total ns := rfl

@[simp] theorem total_append (ms ns : List Nat) : total (ms ++ ns) = total ms + total ns := by
  induction ms with
  | nil => simp
  | cons m ms ih => simp [ih, Nat.add_assoc]

/-- The sum after a replacement, and what was replaced, make up the sum before and what came in. -/
theorem total_map_set {α : Type} {f : α → Nat} {l : List α} {i : Nat} {a b : α}
    (h : l[i]? = some a) : total ((l.set i b).map f) + f a = total (l.map f) + f b := by
  induction l generalizing i with
  | nil => simp at h
  | cons x xs ih =>
    cases i with
    | zero =>
      simp only [List.getElem?_cons_zero, Option.some.injEq] at h
      subst h
      simp only [List.set_cons_zero, List.map_cons, total_cons]
      omega
    | succ i =>
      have := ih (i := i) (by simpa using h)
      simp only [List.set_cons_succ, List.map_cons, total_cons]
      omega

/-- Some part of a positive sum is positive. -/
theorem exists_pos_of_total_pos {α : Type} {f : α → Nat} {l : List α}
    (h : 0 < total (l.map f)) : ∃ a ∈ l, 0 < f a := by
  induction l with
  | nil => simp at h
  | cons x xs ih =>
    by_cases hx : 0 < f x
    · exact ⟨x, List.mem_cons_self, hx⟩
    · obtain ⟨a, ha, hf⟩ := ih (by
        simp only [List.map_cons, total_cons] at h
        omega)
      exact ⟨a, List.mem_cons_of_mem _ ha, hf⟩

end RequestScheduler
