/-!
# Insertion-ordered maps

A map whose order shows in the output is a list of pairs: a new name goes to the end, and a name
that is already there keeps its place and gets the new value. Looking up is `List.lookup`, and
`Statuary.Assoc.put` is the only way the library writes into such a list. That the names stay
distinct and never move is `Statuary.Assoc.keys_put`; what a later look-up sees is
`Statuary.Assoc.lookup_put`.
-/

namespace Statuary.Assoc

variable {α β : Type} [DecidableEq α]

/-- The names, in order. -/
def keys (es : List (α × β)) : List α :=
  es.map (·.1)

/-- Maps `k` to `v`: in place if `k` is there, at the end otherwise. -/
def put (k : α) (v : β) : List (α × β) → List (α × β)
  | [] => [(k, v)]
  | e :: es => if e.1 = k then (k, v) :: es else e :: put k v es

/-- Maps `k` to `v` unless `k` is there. -/
def putNew (k : α) (v : β) (es : List (α × β)) : List (α × β) :=
  if (es.lookup k).isSome then es else put k v es

/-- The map of a list of pairs, in which the last value of a name wins and its first place is
kept. -/
def ofList (es : List (α × β)) : List (α × β) :=
  es.foldl (fun m e => put e.1 e.2 m) []

/-- The name is there. -/
def has (k : α) (es : List (α × β)) : Bool :=
  (es.lookup k).isSome

/-- A name that is there keeps the names as they were; a new one is added at the end. -/
theorem keys_put (k : α) (v : β) (es : List (α × β)) :
    keys (put k v es) = if k ∈ keys es then keys es else keys es ++ [k] := by
  induction es with
  | nil => simp [put, keys]
  | cons e es ih =>
    by_cases h : e.1 = k
    · simp [put, keys, h]
    · have h' : ¬ k = e.1 := fun he => h he.symm
      by_cases hk : k ∈ keys es <;> simp_all [put, keys]

/-- After writing `k`, looking up `k` finds the value and every other name is as before. -/
theorem lookup_put (k j : α) (v : β) (es : List (α × β)) :
    (put k v es).lookup j = if j = k then some v else es.lookup j := by
  induction es with
  | nil =>
    by_cases h : j = k
    · simp [put, h]
    · simp [put, List.lookup_cons, h, beq_eq_false_iff_ne.2 h]
  | cons e es ih =>
    obtain ⟨a, b⟩ := e
    by_cases h : a = k
    · subst h
      by_cases hj : j = a
      · simp [put, hj]
      · simp [put, List.lookup_cons, hj, beq_eq_false_iff_ne.2 hj]
    · by_cases hj : j = a
      · subst hj
        simp [put, h]
      · simp [put, h, List.lookup_cons, beq_eq_false_iff_ne.2 hj, ih]

end Statuary.Assoc
