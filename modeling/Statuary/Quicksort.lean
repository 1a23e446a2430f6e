/-!
# Quicksort

Sorting an array in place by a strict order. Short ranges are sorted by insertion; longer ones are
divided at a pivot that is the median of a few items, ranges that seem to be in order or in reverse
order are treated as such, and a range that is divided badly too often is sorted as a heap.

**Items of which neither is less than the other do not keep their order**, but the order they get
depends on nothing but the list. Everything is done by exchanging two items
(`Statuary.Quicksort.exchange`), so that the result has the same items
(`Statuary.Quicksort.perm_sort`).
-/

namespace Statuary.Quicksort

variable {α : Type}

/-- The items of a list in some order. -/
structure Arrangement (xs : List α) where
  /-- The items. -/
  items : Array α
  /-- They are those of the list. -/
  perm : items.toList.Perm xs

/-- Work on the items of a list. -/
abbrev Work (xs : List α) := StateM (Arrangement xs)

/-- Exchanging two items gives the same items. -/
theorem swapIfInBounds_perm (as : Array α) (i j : Nat) :
    (as.swapIfInBounds i j).toList.Perm as.toList := by
  unfold Array.swapIfInBounds
  split
  · split
    · exact (Array.swap_perm _ _).toList
    · exact List.Perm.refl _
  · exact List.Perm.refl _

section

variable (lt : α → α → Bool) {xs : List α}

/-- Exchanges two items. -/
def exchange (i j : Nat) : Work xs Unit :=
  modify fun a => ⟨a.items.swapIfInBounds i j, (swapIfInBounds_perm a.items i j).trans a.perm⟩

/-- One item is less than another one. -/
def less (i j : Nat) : Work xs Bool := do
  let as := (← get).items
  return match as[i]?, as[j]? with
    | some x, some y => lt x y
    | _, _ => false

/-! ### Insertion -/

/-- Moves the item at `j` towards the front, down to `a` at most, while it is less than the one
before it. -/
def sink (a : Nat) : Nat → Work xs Unit
  | 0 => return
  | j + 1 => do
    if a ≤ j && (← less lt (j + 1) j) then
      exchange (j + 1) j
      sink a j

/-- Moves the item at `j` towards the back while the one after it is less, at most `n` times. -/
def rise : Nat → Nat → Work xs Unit
  | 0, _ => return
  | n + 1, j => do
    if ← less lt (j + 1) j then
      exchange (j + 1) j
      rise n (j + 1)

/-- Sorts the range from `a` to `b` by insertion. -/
def insertion (a b : Nat) : Work xs Unit :=
  (List.range' (a + 1) (b - a - 1)).forM (sink lt a)

/-- The first place from `i` to `b` whose item is less than the one before it. -/
def descent (b : Nat) : Nat → Nat → Work xs Nat
  | 0, i => return i
  | n + 1, i => do
    if i < b && !(← less lt i (i - 1)) then descent b n (i + 1) else return i

/-- Mends a few descents in a range that is nearly sorted, and tells whether it is sorted. Short
ranges are not mended. -/
def mend (a b : Nat) : Nat → Nat → Work xs Bool
  | 0, _ => return false
  | steps + 1, i => do
    let i ← descent lt b (b - i) i
    if i = b then return true
    if b - a < 50 then return false
    exchange i (i - 1)
    if 2 ≤ i - a then sink lt 0 (i - 1)
    if 2 ≤ b - i then rise lt (b - i - 1) i
    mend a b steps i

/-! ### Heaps -/

/-- Moves the item at the root of a heap of `size` items, which starts at `first`, down to its
place. -/
def settle (first size : Nat) : Nat → Nat → Work xs Unit
  | 0, _ => return
  | n + 1, root => do
    let child := 2 * root + 1
    if child < size then
      let right ← less lt (first + child) (first + child + 1)
      let child := if child + 1 < size && right then child + 1 else child
      if ← less lt (first + root) (first + child) then
        exchange (first + root) (first + child)
        settle first size n child

/-- Sorts a range as a heap. -/
def heap (a b : Nat) : Work xs Unit := do
  let size := b - a
  (List.range ((size - 1) / 2 + 1)).reverse.forM fun i => settle lt a size size i
  (List.range size).reverse.forM fun i => do
    exchange a (a + i)
    settle lt a i size 0

/-! ### Pivots -/

/-- Two places, the one of the lesser item first, and how often they were exchanged. -/
def ordered (i j swaps : Nat) : Work xs (Nat × Nat × Nat) := do
  return if ← less lt j i then (j, i, swaps + 1) else (i, j, swaps)

/-- The place of the median of three items, and how often places were exchanged. -/
def median (i j k swaps : Nat) : Work xs (Nat × Nat) := do
  let (i, j, swaps) ← ordered lt i j swaps
  let (j, _, swaps) ← ordered lt j k swaps
  let (_, j, swaps) ← ordered lt i j swaps
  return (j, swaps)

/-- The place of the pivot of a range, and how often places were exchanged to find it. -/
def pivot (a b : Nat) : Work xs (Nat × Nat) := do
  let quarter := (b - a) / 4
  let (i, j, k) := (a + quarter, a + quarter * 2, a + quarter * 3)
  if b - a < 50 then median lt i j k 0
  else
    let (i, swaps) ← median lt (i - 1) i (i + 1) 0
    let (j, swaps) ← median lt (j - 1) j (j + 1) swaps
    let (k, swaps) ← median lt (k - 1) k (k + 1) swaps
    median lt i j k swaps

/-- The most exchanges that finding a pivot can take. -/
def mostSwaps : Nat := 12

/-- Reverses a range. -/
def flip (a b : Nat) : Work xs Unit :=
  (List.range ((b - a) / 2)).forM fun i => exchange (a + i) (b - 1 - i)

/-- A number that follows another one without a pattern. -/
def scatter (x : UInt64) : UInt64 :=
  let x := x ^^^ (x <<< 13)
  let x := x ^^^ (x >>> 7)
  x ^^^ (x <<< 17)

/-- Exchanges three items in the middle of a range with others. -/
def shake (a b : Nat) : Work xs Unit :=
  let length := b - a
  let modulus := Nat.pow 2 (length.log2 + 1)
  let middle := a + length / 4 * 2 - 1
  let first := scatter length.toUInt64
  let second := scatter first
  [first, second, scatter second].zipIdx.forM fun (x, i) =>
    let other := x.toNat % modulus
    exchange (middle - 1 + i) (a + if length ≤ other then other - length else other)

/-! ### Division -/

/-- The first place from `i` to `j` that does not pass, at most `n` steps away. -/
def firstFailing (passes : Nat → Work xs Bool) : Nat → Nat → Nat → Work xs Nat
  | 0, i, _ => return i
  | n + 1, i, j => do
    if i ≤ j && (← passes i) then firstFailing passes n (i + 1) j else return i

/-- The last place from `i` to `j` that does not pass, at most `n` steps away. -/
def lastFailing (passes : Nat → Work xs Bool) : Nat → Nat → Nat → Work xs Nat
  | 0, _, j => return j
  | n + 1, i, j => do
    if i ≤ j && (← passes j) then lastFailing passes n i (j - 1) else return j

/-- Divides the items from `i` to `j` into those that belong to the left and those that belong to
the right. The results are the first place on the right, the last one on the left and whether
nothing had to be moved. -/
def divide (left right : Nat → Work xs Bool) :
    Nat → Nat → Nat → Bool → Work xs (Nat × Nat × Bool)
  | 0, i, j, still => return (i, j, still)
  | n + 1, i, j, still => do
    let i ← firstFailing left (n + 1) i j
    let j ← lastFailing right (n + 1) i j
    if j < i then return (i, j, still)
    exchange i j
    divide left right n (i + 1) (j - 1) false

/-- Divides a range at a pivot. The results are where the pivot is then, and whether nothing had to
be moved. -/
def partition (a b p : Nat) : Work xs (Nat × Bool) := do
  exchange a p
  let (_, j, still) ←
    divide (less lt · a) (fun j => return !(← less lt j a)) (b - a) (a + 1) (b - 1) true
  exchange j a
  return (j, still)

/-- Divides a range without items less than the pivot into those that equal it and the rest. The
result is where the rest begins. -/
def partitionEqual (a b p : Nat) : Work xs Nat := do
  exchange a p
  let (i, _, _) ←
    divide (fun i => return !(← less lt a i)) (less lt a ·) (b - a) (a + 1) (b - 1) true
  return i

/-! ### Sorting -/

/-- Sorts the range from `a` to `b`. A range may be divided badly `limit` times; `balanced` and
`still` tell whether it was made by a good division, and by one that moved nothing. Every division
makes ranges shorter, so as many steps as there are items are enough. -/
def sortRange : Nat → Nat → Nat → Nat → Bool → Bool → Work xs Unit
  | 0, _, _, _, _, _ => return
  | fuel + 1, a, b, limit, balanced, still => do
    let length := b - a
    if length ≤ 12 then insertion lt a b
    else if limit = 0 then heap lt a b
    else
      if !balanced then shake a b
      let limit := if balanced then limit else limit - 1
      let (p, swaps) ← pivot lt a b
      if swaps = mostSwaps then flip a b
      let p := if swaps = mostSwaps then b - 1 - (p - a) else p
      let inOrder := swaps = 0 || swaps = mostSwaps
      let sorted ← if balanced && still && inOrder then mend lt a b 5 (a + 1) else pure false
      if sorted then return
      if a ≠ 0 && !(← less lt (a - 1) p) then
        let rest ← partitionEqual lt a b p
        sortRange fuel rest b limit balanced still
      else
        let (middle, still) ← partition lt a b p
        let (leftSize, rightSize) := (middle - a, b - middle)
        if leftSize < rightSize then
          sortRange fuel a middle limit true true
          sortRange fuel (middle + 1) b limit (length / 8 ≤ leftSize) still
        else
          sortRange fuel (middle + 1) b limit true true
          sortRange fuel a middle limit (length / 8 ≤ rightSize) still

end

/-- The items of a list as they are. -/
def Arrangement.given (xs : List α) : Arrangement xs := ⟨xs.toArray, by simp⟩

/-- The items of a list in order. -/
def arrange (lt : α → α → Bool) (xs : List α) : Arrangement xs :=
  let n := xs.length
  ((sortRange lt (n + 1) 0 n (n.log2 + 1) true true).run (.given xs)).2

/-- **Sorting a list** by a strict order. -/
def sort (lt : α → α → Bool) (xs : List α) : List α :=
  (arrange lt xs).items.toList

/-- Sorting keeps the items. -/
theorem perm_sort (lt : α → α → Bool) (xs : List α) : (sort lt xs).Perm xs :=
  (arrange lt xs).perm

end Statuary.Quicksort
