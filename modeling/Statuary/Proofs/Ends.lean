import Mathlib.Data.Nat.Notation
import Mathlib.Order.Basic

/-!
# Programs that come to an end

A program that need not come to an end is given a number of steps, and has no result when they run
out. It **comes to an end** with a result if it has this result with every number of steps that is
large enough (`Statuary.Ends`). There is one such result at most (`Statuary.Ends.unique`), and a
program that goes on as others do comes to an end where they do (`Statuary.Ends.step`,
`Statuary.Ends.step₂`).
-/

namespace Statuary

variable {α β γ : Type}

/-- **A program comes to an end** with a result. -/
def Ends (f : ℕ → Option α) (a : α) : Prop :=
  ∃ enough, ∀ n ≥ enough, f n = some a

namespace Ends

variable {f : ℕ → Option α} {a : α} {g : ℕ → Option β} {b : β} {h : ℕ → Option γ} {c : γ}

theorem unique {a' : α} (ha : Ends f a) (ha' : Ends f a') : a = a' := by
  obtain ⟨N, hN⟩ := ha
  obtain ⟨N', hN'⟩ := ha'
  exact Option.some.inj
    ((hN _ (Nat.le_max_left N N')).symm.trans (hN' _ (Nat.le_max_right N N')))

/-- One step more than two programs take. -/
theorem step₂ (ha : Ends f a) (hb : Ends g b)
    (hstep : ∀ n, f n = some a → g n = some b → h (n + 1) = some c) : Ends h c := by
  obtain ⟨N, hN⟩ := ha
  obtain ⟨N', hN'⟩ := hb
  refine ⟨max N N' + 1, fun n hn => ?_⟩
  obtain ⟨n, rfl⟩ : ∃ k, n = k + 1 := ⟨n - 1, by omega⟩
  exact hstep n (hN n (by omega)) (hN' n (by omega))

/-- One step more than a program takes. -/
theorem step (ha : Ends f a) (hstep : ∀ n, f n = some a → g (n + 1) = some b) : Ends g b :=
  ha.step₂ ha fun n hn _ => hstep n hn

theorem of_succ (hone : ∀ n, f (n + 1) = some a) : Ends f a := by
  refine ⟨1, fun n hn => ?_⟩
  obtain ⟨n, rfl⟩ : ∃ k, n = k + 1 := ⟨n - 1, by omega⟩
  exact hone n

end Ends

end Statuary
