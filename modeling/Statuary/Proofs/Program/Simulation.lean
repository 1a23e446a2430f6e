import Mathlib.Tactic.Set
import Statuary.Proofs.Program.Meaning

/-!
# A compiled body does what the body does

The lines of a compiled body run like the body itself, as long as a call of a generated function
finds the lines that were generated for it (`Statuary.yields_compileBody`). The one delicate point
is the flag of a branch. It is raised before the first body runs, which may run many times and hold
branches of its own, and it is tested once more after that; if it were touched in between, the
second body would run as well. So the statement that is carried through the induction says more than
what becomes of the world: the lines leave **every flag alone that is not theirs**, where the flags
of a body are those between the counters before and after it (`Statuary.Yields`).
-/

namespace Statuary

/-! ### Runs that keep to their flags -/

section Yields

variable {W C : Type}

/-- **A run does what `g` does** to the world, and it changes no flag below `lo` or from `hi` on. -/
def Yields (run : C → Flagged W → Option (Flagged W)) (g : C → W → W) (lo hi : ℕ) : Prop :=
  ∀ x s, ∃ flags, run x s = some ⟨g x s.world, flags⟩ ∧
    ∀ f, f < lo ∨ hi ≤ f → flags f = s.flags f

/-- Two runs one after another. -/
theorem Yields.comp {run run' : C → Flagged W → Option (Flagged W)} {g g' : C → W → W}
    {lo mid hi : ℕ} (hlo : lo ≤ mid) (hhi : mid ≤ hi) (h : Yields run g lo mid)
    (h' : Yields run' g' mid hi) :
    Yields (fun x s => (run x s).bind (run' x)) (fun x w => g' x (g x w)) lo hi := by
  intro x s
  obtain ⟨flags, hrun, hframe⟩ := h x s
  obtain ⟨flags', hrun', hframe'⟩ := h' x ⟨g x s.world, flags⟩
  refine ⟨flags', ?_, fun f hf => ?_⟩
  · dsimp only
    rw [hrun, Option.bind_some, hrun']
  · rw [hframe' f (by omega)]
    exact hframe f (by omega)

/-- A run in one context after another. -/
theorem Yields.each {run : C → Flagged W → Option (Flagged W)} {g : C → W → W} {lo hi : ℕ}
    (h : Yields run g lo hi) (ys : List C) (s : Flagged W) :
    ∃ flags, ys.foldlM (fun s y => run y s) s =
        some ⟨ys.foldl (fun w y => g y w) s.world, flags⟩ ∧
      ∀ f, f < lo ∨ hi ≤ f → flags f = s.flags f := by
  induction ys generalizing s with
  | nil => exact ⟨s.flags, rfl, fun _ _ => rfl⟩
  | cons y ys ih =>
    obtain ⟨flags, hrun, hframe⟩ := h y s
    obtain ⟨flags', hrun', hframe'⟩ := ih ⟨g y s.world, flags⟩
    refine ⟨flags', ?_, fun f hf => (hframe' f hf).trans (hframe f hf)⟩
    rw [List.foldlM_cons, hrun]
    exact hrun'

end Yields

/-! ### The counters -/

mutual

/-- Compiling a body only moves the counters on. -/
theorem after_compileBody : ∀ (body : List Statement) (c : Counters),
    c.functions ≤ (compileBody c body).after.functions ∧
      c.flags ≤ (compileBody c body).after.flags
  | [], c => ⟨Nat.le_refl _, Nat.le_refl _⟩
  | s :: ss, c => by
    have hs := after_compileStatement s c
    have hss := after_compileBody ss (compileStatement c s).after
    exact ⟨Nat.le_trans hs.1 hss.1, Nat.le_trans hs.2 hss.2⟩

theorem after_compileStatement : ∀ (s : Statement) (c : Counters),
    c.functions ≤ (compileStatement c s).after.functions ∧
      c.flags ≤ (compileStatement c s).after.flags
  | .line _, c => ⟨Nat.le_refl _, Nat.le_refl _⟩
  | .block _ body, c => by
    have hbody := after_compileBody body { c with functions := c.functions + 1 }
    simp only [compileStatement] at hbody ⊢
    omega
  | .branch _ yes [], c => by
    have hyes := after_compileBody yes ⟨c.functions + 1, c.flags + 1⟩
    simp only [compileStatement, List.isEmpty_nil, if_true] at hyes ⊢
    omega
  | .branch _ yes (n :: no), c => by
    have hyes := after_compileBody yes ⟨c.functions + 1, c.flags + 1⟩
    set first := (compileBody ⟨c.functions + 1, c.flags + 1⟩ yes).after with hfirst
    have hno := after_compileBody (n :: no) { first with functions := first.functions + 1 }
    simp only [compileStatement, List.isEmpty_cons, Bool.false_eq_true, if_false, ← hfirst]
      at hyes hno ⊢
    omega

end

/-! ### The lines of a branch -/

section Branch

variable {W C : Type} (I : Interpretation W C) {call : ℕ → C → Flagged W → Option (Flagged W)}

theorem runLines_append (lines lines' : List PackLine) (x : C) (s : Flagged W) :
    I.runLines call (lines ++ lines') x s =
      (I.runLines call lines x s).bind (I.runLines call lines' x) :=
  List.foldlM_append

/-- Setting a flag once for every selected context sets it, if there is one. -/
theorem foldl_setFlag (f : ℕ) (v : ℤ) (y : C) (ys : List C) (s : Flagged W) :
    (y :: ys).foldl (fun s _ => s.setFlag f v) s = s.setFlag f v := by
  induction ys generalizing y s with
  | nil => rfl
  | cons z ys ih =>
    rw [List.foldl_cons, ih z]
    simp only [Flagged.setFlag, Function.update_idem]

/-- Where the condition selects nothing, the flag stays down and no body has run. -/
theorem runLines_branch_none {cond : String} {x : C} {s : Flagged W}
    (hcond : I.cond cond x s.world = []) (f n : ℕ) :
    I.runLines call [.clear f, .raise f cond, .callIf f cond n] x s = some (s.setFlag f 0) := by
  have hflag : ¬ (s.setFlag f 0).flags f = some 1 := by simp [Flagged.setFlag]
  have hworld : (s.setFlag f 0).world = s.world := rfl
  simp only [Interpretation.runLines, List.foldlM_cons, List.foldlM_nil, Interpretation.runLine,
    Option.bind_eq_bind, Option.bind_some, hworld, hcond, List.foldl_nil, if_neg hflag]
  rfl

/-- Where the condition selects contexts, the first body runs in each of them, and **the flag is
still up** after that. -/
theorem runLines_branch_some {cond : String} {x : C} {s : Flagged W} {y : C} {ys : List C}
    (hcond : I.cond cond x s.world = y :: ys) {f n hi : ℕ} {g : C → W → W} (hf : f < hi)
    (h : Yields (call n) g (f + 1) hi) :
    ∃ flags, I.runLines call [.clear f, .raise f cond, .callIf f cond n] x s =
        some ⟨(y :: ys).foldl (fun w y => g y w) s.world, flags⟩ ∧
      flags f = some 1 ∧ ∀ j, j < f ∨ hi ≤ j → flags j = s.flags j := by
  have hup : ((s.setFlag f 0).setFlag f 1).flags f = some 1 := by simp [Flagged.setFlag]
  have hworld : ((s.setFlag f 0).setFlag f 1).world = s.world := rfl
  -- all that the first body runs has flags from `f + 1` on, so flag `f` is out of its reach
  obtain ⟨flags, hrun, hframe⟩ := h.each (y :: ys) ((s.setFlag f 0).setFlag f 1)
  refine ⟨flags, ?_, (hframe f (by omega)).trans hup, fun j hj => ?_⟩
  · rw [← hworld, ← hrun, ← hcond]
    have hzero : (s.setFlag f 0).world = s.world := rfl
    simp only [Interpretation.runLines, List.foldlM_cons, List.foldlM_nil, Interpretation.runLine,
      Option.bind_eq_bind, Option.bind_some, hzero, hcond, foldl_setFlag, hup, hworld, if_true]
    exact Option.bind_fun_some _
  · have hne : j ≠ f := by omega
    rw [hframe j (by omega)]
    simp [Flagged.setFlag, Function.update_of_ne hne]

/-- A branch without a second body. -/
theorem yields_branch_nil (cond : String) {yes : List Statement} {f n hi : ℕ} (hf : f < hi)
    (h : Yields (call n) (I.runBody yes) (f + 1) hi) :
    Yields (I.runLines call [.clear f, .raise f cond, .callIf f cond n])
      (I.runStatement (.branch cond yes [])) f hi := by
  intro x s
  cases hcond : I.cond cond x s.world with
  | nil =>
    refine ⟨(s.setFlag f 0).flags, ?_, fun j hj => ?_⟩
    · rw [runLines_branch_none I hcond, Interpretation.runStatement, hcond]
      rfl
    · have hne : j ≠ f := by omega
      simp [Flagged.setFlag, Function.update_of_ne hne]
  | cons y ys =>
    obtain ⟨flags, hrun, -, hframe⟩ := runLines_branch_some I hcond hf h
    refine ⟨flags, ?_, hframe⟩
    rw [hrun, Interpretation.runStatement, hcond]

/-- A branch with two bodies: exactly one of them runs. -/
theorem yields_branch_cons (cond : String) {yes no : List Statement} {f n m mid hi : ℕ}
    (hf : f < mid) (hmid : mid ≤ hi) (hyes : Yields (call n) (I.runBody yes) (f + 1) mid)
    (hno : Yields (call m) (I.runBody no) mid hi) :
    Yields (I.runLines call ([.clear f, .raise f cond, .callIf f cond n] ++ [.callUnless f m]))
      (I.runStatement (.branch cond yes no)) f hi := by
  intro x s
  cases hcond : I.cond cond x s.world with
  | nil =>
    -- the flag is down: the first body has run in no context, the second one runs where we stand
    obtain ⟨flags, hrun, hframe⟩ := hno x (s.setFlag f 0)
    have hdown : (s.setFlag f 0).flags f = some 0 := by simp [Flagged.setFlag]
    refine ⟨flags, ?_, fun j hj => ?_⟩
    · rw [runLines_append, runLines_branch_none I hcond, Option.bind_some]
      simp only [Interpretation.runLines, List.foldlM_cons, List.foldlM_nil, Interpretation.runLine,
        hdown, if_true, hrun, Interpretation.runStatement, hcond]
      rfl
    · have hne : j ≠ f := by omega
      rw [hframe j (by omega)]
      simp [Flagged.setFlag, Function.update_of_ne hne]
  | cons y ys =>
    -- the flag is up, also after the first body, so the last line does nothing
    obtain ⟨flags, hrun, hup, hframe⟩ := runLines_branch_some I hcond hf hyes
    have hnot : ¬ flags f = some 0 := by rw [hup]; decide
    refine ⟨flags, ?_, fun j hj => hframe j (by omega)⟩
    rw [runLines_append, hrun, Option.bind_some]
    simp only [Interpretation.runLines, List.foldlM_cons, List.foldlM_nil, Interpretation.runLine,
      if_neg hnot, Interpretation.runStatement, hcond]
    rfl

end Branch

/-! ### Compiled bodies -/

section Compiled

variable {W C : Type} (I : Interpretation W C) (files : String → Option (List PackLine))
  (target : ℕ → String)

/-- The lines do what `g` does, if calls may be nested deeply enough. -/
def Settles (lines : List PackLine) (g : C → W → W) (lo hi : ℕ) : Prop :=
  ∃ N, ∀ k, N ≤ k →
    Yields (I.runLines (fun n => I.runFile files target k (target n)) lines) g lo hi

variable {I files target}

theorem Settles.append {lines lines' : List PackLine} {g g' : C → W → W} {lo mid hi : ℕ}
    (hlo : lo ≤ mid) (hhi : mid ≤ hi) (h : Settles I files target lines g lo mid)
    (h' : Settles I files target lines' g' mid hi) :
    Settles I files target (lines ++ lines') (fun x w => g' x (g x w)) lo hi := by
  obtain ⟨N, hN⟩ := h
  obtain ⟨N', hN'⟩ := h'
  refine ⟨max N N', fun k hk => ?_⟩
  have hrun := Yields.comp hlo hhi (hN k (by omega)) (hN' k (by omega))
  intro x s
  obtain ⟨flags, hx⟩ := hrun x s
  exact ⟨flags, (runLines_append I lines lines' x s).trans hx.1, hx.2⟩

/-- A function that is found where it is called takes one call more than its lines. -/
theorem Settles.call {lines : List PackLine} {g : C → W → W} {lo hi : ℕ}
    (h : Settles I files target lines g lo hi) {path : String} (hfile : files path = some lines) :
    ∃ N, ∀ k, N ≤ k → Yields (I.runFile files target k path) g lo hi := by
  obtain ⟨N, hN⟩ := h
  refine ⟨N + 1, fun k hk => ?_⟩
  obtain ⟨k, rfl⟩ : ∃ j, k = j + 1 := ⟨k - 1, by omega⟩
  intro x s
  obtain ⟨flags, hx⟩ := hN k (by omega) x s
  refine ⟨flags, ?_, hx.2⟩
  rw [Interpretation.runFile, hfile, Option.bind_some, hx.1]

mutual

/-- **A compiled body does what the body does**, if each generated function is found at its path. -/
theorem settles_compileBody : ∀ (body : List Statement) (c : Counters),
    (∀ g ∈ (compileBody c body).generated, files (target g.1) = some g.2) →
    Settles I files target (compileBody c body).lines (I.runBody body) c.flags
      (compileBody c body).after.flags
  | [], c => fun _ => ⟨0, fun _ _ _ s => ⟨s.flags, rfl, fun _ _ => rfl⟩⟩
  | s :: ss, c => by
    intro hfiles
    have hs := settles_compileStatement s c fun g hg => hfiles g (List.mem_append_left _ hg)
    have hss := settles_compileBody ss (compileStatement c s).after
      fun g hg => hfiles g (List.mem_append_right _ hg)
    have hbody : I.runBody (s :: ss) = fun x w => I.runBody ss x (I.runStatement s x w) := by
      funext x w
      rw [Interpretation.runBody]
    rw [hbody]
    exact Settles.append (after_compileStatement s c).2 (after_compileBody ss _).2 hs hss

theorem settles_compileStatement : ∀ (s : Statement) (c : Counters),
    (∀ g ∈ (compileStatement c s).generated, files (target g.1) = some g.2) →
    Settles I files target (compileStatement c s).lines (I.runStatement s) c.flags
      (compileStatement c s).after.flags
  | .line text, c => fun _ => ⟨0, fun _ _ _ s => ⟨s.flags, rfl, fun _ _ => rfl⟩⟩
  | .block head body, c => by
    intro hfiles
    simp only [compileStatement] at hfiles ⊢
    have hbody := settles_compileBody body { c with functions := c.functions + 1 }
      fun g hg => hfiles g (List.mem_append_left _ hg)
    -- the body took its number before the bodies inside it and is written after them
    have hfile := hfiles (c.functions, _) (List.mem_append_right _ (List.mem_singleton_self _))
    obtain ⟨N, hN⟩ := hbody.call hfile
    refine ⟨N, fun k hk x s => ?_⟩
    obtain ⟨flags, hrun, hframe⟩ := (hN k hk).each (I.head head x s.world) s
    refine ⟨flags, ?_, hframe⟩
    simp only [Interpretation.runLines, List.foldlM_cons, List.foldlM_nil, Interpretation.runLine,
      hrun, Interpretation.runStatement]
    rfl
  | .branch cond yes [], c => by
    intro hfiles
    have hafter := after_compileBody yes ⟨c.functions + 1, c.flags + 1⟩
    simp only [compileStatement, List.isEmpty_nil, if_true] at hfiles ⊢
    have hyes := settles_compileBody yes ⟨c.functions + 1, c.flags + 1⟩
      fun g hg => hfiles g (List.mem_append_left _ hg)
    have hfile := hfiles (c.functions, _) (List.mem_append_right _ (List.mem_singleton_self _))
    obtain ⟨N, hN⟩ := hyes.call hfile
    exact ⟨N, fun k hk => yields_branch_nil I cond hafter.2 (hN k hk)⟩
  | .branch cond yes (n :: no), c => by
    intro hfiles
    have hafter := after_compileBody yes ⟨c.functions + 1, c.flags + 1⟩
    simp only [compileStatement, List.isEmpty_cons, Bool.false_eq_true, if_false,
      List.append_assoc] at hfiles ⊢
    -- the second body starts with the counters that the first one leaves, so their flags differ
    set first := compileBody ⟨c.functions + 1, c.flags + 1⟩ yes with hfirst
    have hafter' := after_compileBody (n :: no)
      { first.after with functions := first.after.functions + 1 }
    have hyes := settles_compileBody yes ⟨c.functions + 1, c.flags + 1⟩
      fun g hg => hfiles g (List.mem_append_left _ hg)
    have hno := settles_compileBody (n :: no)
      { first.after with functions := first.after.functions + 1 }
      fun g hg => hfiles g (List.mem_append_right _ (List.mem_append_right _
        (List.mem_append_left _ hg)))
    obtain ⟨N, hN⟩ := hyes.call (hfiles (c.functions, _)
      (List.mem_append_right _ (List.mem_append_left _ (List.mem_singleton_self _))))
    obtain ⟨N', hN'⟩ := hno.call (hfiles (first.after.functions, _)
      (List.mem_append_right _ (List.mem_append_right _ (List.mem_append_right _
        (List.mem_singleton_self _)))))
    exact ⟨max N N', fun k hk => yields_branch_cons I cond hafter.2 hafter'.2
      (hN k (by omega)) (hN' k (by omega))⟩

end

end Compiled

end Statuary
