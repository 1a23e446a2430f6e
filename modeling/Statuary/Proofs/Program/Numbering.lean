import Mathlib.Data.List.Forall2
import Mathlib.Data.List.Perm.Basic
import Mathlib.Tactic.Set
import Statuary.Proofs.Program.Meaning

/-!
# The numbers of inner bodies and branches

A body is compiled **statement by statement**: each statement becomes a few lines of its own
(`Statuary.Site`), and the bodies inside it go into functions of their own. This file says which
numbers these functions and the flags of the branches get.

The bodies inside a program have an order, that in which they begin (`Statuary.innerBodies`), and the
generated function with number `n` is made of the `n`-th of them. What has to be carried through the
compiler is that numbers are given out *before* the bodies are compiled and functions are finished
*after* the ones inside them, so neither the list of functions nor the list of calls comes in the
order of the numbers. Both are counted without regard to order instead: between two states of the
counters **every number is called once and every flag is used once** (`Statuary.Allots`).
-/

namespace Statuary

/-! ### What is numbered -/

mutual

/-- **The bodies inside a body**, in the order in which they begin. A branch whose second body is
empty has none. -/
def innerBodies : List Statement → List (List Statement)
  | [] => []
  | s :: ss => statementBodies s ++ innerBodies ss

/-- The bodies inside a statement. -/
def statementBodies : Statement → List (List Statement)
  | .line _ => []
  | .block _ body => body :: innerBodies body
  | .branch _ yes no => yes :: innerBodies yes ++ if no.isEmpty then [] else no :: innerBodies no

end

mutual

/-- The number of branches in a body, at any depth. -/
def branchCount : List Statement → ℕ
  | [] => 0
  | s :: ss => statementBranches s + branchCount ss

/-- The number of branches in a statement. -/
def statementBranches : Statement → ℕ
  | .line _ => 0
  | .block _ body => branchCount body
  | .branch _ yes no => 1 + branchCount yes + branchCount no

end

/-! ### Sites -/

/-- **What a statement is compiled to**: a command, a call of the function of an inner body, or the
use of a flag and the calls for one or two bodies. -/
inductive Site where
  /-- A command. -/
  | line (text : String)
  /-- A call of function `n` through a head. -/
  | block (head : String) (n : ℕ)
  /-- A flag, the function of the first body and that of the second, if there is one. -/
  | branch (cond : String) (flag yes : ℕ) (no : Option ℕ)

/-- The generated function that a line calls. -/
def PackLine.callee? : PackLine → Option ℕ
  | .call _ n => some n
  | .callIf _ _ n => some n
  | .callUnless _ n => some n
  | _ => none

namespace Site

/-- The lines of a site. -/
def lines : Site → List PackLine
  | line text => [.command text]
  | block head n => [.call head n]
  | branch cond f n m =>
    [.clear f, .raise f cond, .callIf f cond n] ++ (m.map (.callUnless f)).toList

/-- The functions that the lines of a site call. -/
def calls (s : Site) : List ℕ :=
  s.lines.filterMap PackLine.callee?

/-- The flag that a site uses. -/
def flag? : Site → Option ℕ
  | branch _ f _ _ => some f
  | _ => none

end Site

/-- **A site compiles a statement**, given the inner bodies in the order of their numbers: it holds
the texts of the statement and calls the functions of its bodies. -/
inductive Compiles (bodies : List (List Statement)) : Statement → Site → Prop
  /-- A command stays as it is. -/
  | line (text : String) : Compiles bodies (.line text) (.line text)
  /-- The body of a block is called through its head. -/
  | block (head : String) {body : List Statement} {n : ℕ} (h : bodies[n]? = some body) :
      Compiles bodies (.block head body) (.block head n)
  /-- A branch without a second body. -/
  | branch (cond : String) {yes : List Statement} (f : ℕ) {n : ℕ} (h : bodies[n]? = some yes) :
      Compiles bodies (.branch cond yes []) (.branch cond f n none)
  /-- A branch with two bodies. -/
  | branches (cond : String) {yes no : List Statement} (f : ℕ) {n m : ℕ}
      (h : bodies[n]? = some yes) (hne : no ≠ []) (h' : bodies[m]? = some no) :
      Compiles bodies (.branch cond yes no) (.branch cond f n (some m))

/-! ### Giving out numbers -/

theorem append_append_perm {α : Type} (as bs cs ds : List α) :
    ((as ++ bs) ++ (cs ++ ds)).Perm ((as ++ cs) ++ (bs ++ ds)) := by
  simp only [List.append_assoc]
  refine List.Perm.append_left as ?_
  rw [← List.append_assoc, ← List.append_assoc]
  exact List.perm_append_comm.append_right ds

/-- **The numbers between two states of the counters** are those that sites use: the sites of a body,
and those of the bodies inside it. Every function is called once, and every flag belongs to one
branch. -/
structure Allots (c : Counters) (own : List Site) (inner : List (List Site)) (branches : ℕ)
    (after : Counters) : Prop where
  calls : ((own ++ inner.flatten).flatMap Site.calls).Perm (List.range' c.functions inner.length)
  flags : ((own ++ inner.flatten).filterMap Site.flag?).Perm (List.range' c.flags branches)
  functions_after : after.functions = c.functions + inner.length
  flags_after : after.flags = c.flags + branches

namespace Allots

variable {c d after : Counters} {own own' : List Site} {inner inner' : List (List Site)}
  {b b' : ℕ}

theorem nil (c : Counters) : Allots c [] [] 0 c :=
  ⟨.refl _, .refl _, rfl, rfl⟩

theorem append (h : Allots c own inner b d) (h' : Allots d own' inner' b' after) :
    Allots c (own ++ own') (inner ++ inner') (b + b') after := by
  have hsites : ((own ++ own') ++ (inner ++ inner').flatten).Perm
      ((own ++ inner.flatten) ++ (own' ++ inner'.flatten)) := by
    rw [List.flatten_append]
    exact append_append_perm ..
  constructor
  · rw [List.length_append, ← List.range'_append_1, ← h.functions_after]
    refine (hsites.flatMap_right _).trans ?_
    rw [List.flatMap_append]
    exact h.calls.append h'.calls
  · rw [← List.range'_append_1, ← h.flags_after]
    refine (hsites.filterMap _).trans ?_
    rw [List.filterMap_append]
    exact h.flags.append h'.flags
  · rw [h'.functions_after, h.functions_after, List.length_append, Nat.add_assoc]
  · rw [h'.flags_after, h.flags_after, Nat.add_assoc]

theorem line (c : Counters) (text : String) : Allots c [.line text] [] 0 c :=
  ⟨.refl _, .refl _, rfl, rfl⟩

/-- The body of a block is called by the block. -/
theorem block (head : String)
    (h : Allots { c with functions := c.functions + 1 } own inner b after) :
    Allots c [.block head c.functions] (own :: inner) b after := by
  refine ⟨?_, h.flags, ?_, h.flags_after⟩
  · rw [List.length_cons, List.range'_succ]
    exact h.calls.cons c.functions
  · rw [h.functions_after, List.length_cons]
    dsimp only
    omega

/-- The body of a branch is called by the branch, which takes a flag as well. -/
theorem branch (cond : String) (h : Allots ⟨c.functions + 1, c.flags + 1⟩ own inner b after) :
    Allots c [.branch cond c.flags c.functions none] (own :: inner) (1 + b) after := by
  refine ⟨?_, ?_, ?_, ?_⟩
  · rw [List.length_cons, List.range'_succ]
    exact h.calls.cons c.functions
  · rw [Nat.add_comm, List.range'_succ]
    exact h.flags.cons c.flags
  · rw [h.functions_after, List.length_cons]
    dsimp only
    omega
  · rw [h.flags_after]
    dsimp only
    omega

/-- The second body gets its number when the first one is done. -/
theorem branches (cond : String) (h : Allots ⟨c.functions + 1, c.flags + 1⟩ own inner b d)
    (h' : Allots { d with functions := d.functions + 1 } own' inner' b' after) :
    Allots c [.branch cond c.flags c.functions (some d.functions)]
      (own :: inner ++ own' :: inner') (1 + b + b') after := by
  have hfunctions : d.functions = c.functions + (inner.length + 1) := by
    rw [h.functions_after]
    dsimp only
    omega
  have hsites : (own :: inner ++ own' :: inner').flatten =
      (own ++ inner.flatten) ++ (own' ++ inner'.flatten) := by simp
  constructor
  · -- the calls of the two bodies, then those inside the first body, then those inside the second
    have hcalls : ([Site.branch cond c.flags c.functions (some d.functions)] ++
        ((own ++ inner.flatten) ++ (own' ++ inner'.flatten))).flatMap Site.calls =
        c.functions :: d.functions :: ((own ++ inner.flatten).flatMap Site.calls ++
          (own' ++ inner'.flatten).flatMap Site.calls) := by
      rw [List.flatMap_append, List.flatMap_append]
      rfl
    rw [hsites, hcalls, List.length_append, List.length_cons, List.length_cons,
      ← List.range'_append_1, ← hfunctions, List.range'_succ, List.range'_succ, List.cons_append]
    exact (List.perm_middle.symm.trans (h.calls.append (h'.calls.cons _))).cons _
  · have hflags : ([Site.branch cond c.flags c.functions (some d.functions)] ++
        ((own ++ inner.flatten) ++ (own' ++ inner'.flatten))).filterMap Site.flag? =
        c.flags :: ((own ++ inner.flatten).filterMap Site.flag? ++
          (own' ++ inner'.flatten).filterMap Site.flag?) := by
      rw [List.filterMap_append, List.filterMap_append]
      rfl
    have hrange : List.range' c.flags (1 + b + b') =
        c.flags :: (List.range' (c.flags + 1) b ++ List.range' d.flags b') := by
      rw [h.flags_after, List.range'_append_1, ← List.range'_succ, Nat.add_comm 1 b,
        Nat.add_right_comm]
    rw [hsites, hflags, hrange]
    exact (h.flags.append h'.flags).cons _
  · rw [h'.functions_after, hfunctions]
    simp only [List.length_append, List.length_cons]
    omega
  · rw [h'.flags_after, h.flags_after]
    dsimp only
    omega

end Allots

/-! ### Compiled bodies -/

/-- The lines of functions that are numbered one after another. -/
def numbered : ℕ → List (List Site) → List (ℕ × List PackLine)
  | _, [] => []
  | n, sites :: inner => (n, sites.flatMap Site.lines) :: numbered (n + 1) inner

theorem numbered_append (n : ℕ) (inner inner' : List (List Site)) :
    numbered n (inner ++ inner') = numbered n inner ++ numbered (n + inner.length) inner' := by
  induction inner generalizing n with
  | nil => rfl
  | cons sites inner ih =>
    rw [List.cons_append, numbered, numbered, ih, List.cons_append, List.length_cons,
      Nat.add_assoc, Nat.add_comm 1]

theorem numbered_fst (n : ℕ) (inner : List (List Site)) :
    (numbered n inner).map (·.1) = List.range' n inner.length := by
  induction inner generalizing n with
  | nil => rfl
  | cons sites inner ih => rw [numbered, List.map_cons, ih, List.length_cons, List.range'_succ]

theorem prefix_drop_of_append {α : Type} {all xs ys : List α} {n : ℕ}
    (h : xs ++ ys <+: all.drop n) : xs <+: all.drop n ∧ ys <+: all.drop (n + xs.length) := by
  refine ⟨(List.prefix_append xs ys).trans h, ?_⟩
  obtain ⟨rest, hrest⟩ := h
  rw [← List.drop_drop, ← hrest, List.append_assoc, List.drop_left]
  exact List.prefix_append ys rest

theorem prefix_drop_of_cons {α : Type} {all xs : List α} {x : α} {n : ℕ}
    (h : x :: xs <+: all.drop n) : all[n]? = some x ∧ xs <+: all.drop (n + 1) := by
  have hcons : [x] ++ xs <+: all.drop n := h
  refine ⟨?_, (prefix_drop_of_append hcons).2⟩
  obtain ⟨rest, hrest⟩ := h
  rw [← List.head?_drop, ← hrest]
  rfl

/-- **What is compiled from statements**: their sites one after another, and a function for each of
the bodies inside them. The bodies of all the program are `all`; the sites are `own`, those of the
bodies inside are `inner`. -/
structure Compiled.Links (all : List (List Statement)) (statements : List Statement)
    (bodies : List (List Statement)) (branches : ℕ) (c : Counters) (out : Compiled)
    (own : List Site) (inner : List (List Site)) : Prop where
  compiles : List.Forall₂ (Compiles all) statements own
  inside : List.Forall₂ (List.Forall₂ (Compiles all)) bodies inner
  lines : out.lines = own.flatMap Site.lines
  generated : out.generated.Perm (numbered c.functions inner)
  allots : Allots c own inner branches out.after

namespace Compiled.Links

variable {all bodies bodies' : List (List Statement)} {ss ss' : List Statement} {b b' : ℕ}
  {c : Counters} {out out' : Compiled} {own own' : List Site} {inner inner' : List (List Site)}

/-- The number after the bodies inside. -/
theorem functions_after (h : out.Links all ss bodies b c own inner) :
    out.after.functions = c.functions + bodies.length := by
  rw [h.allots.functions_after, h.inside.length_eq]

theorem append (h : out.Links all ss bodies b c own inner)
    (h' : out'.Links all ss' bodies' b' out.after own' inner') :
    Compiled.Links all (ss ++ ss') (bodies ++ bodies') (b + b') c
      ⟨out.lines ++ out'.lines, out.generated ++ out'.generated, out'.after⟩
      (own ++ own') (inner ++ inner') where
  compiles := List.rel_append h.compiles h'.compiles
  inside := List.rel_append h.inside h'.inside
  lines := by rw [h.lines, h'.lines, List.flatMap_append]
  generated := by
    rw [numbered_append, ← h.allots.functions_after]
    exact h.generated.append h'.generated
  allots := h.allots.append h'.allots

/-- A body goes into a function of its own, which is done after those inside it. -/
theorem generated_snoc {n : ℕ} (hn : c.functions = n + 1)
    (h : out.Links all ss bodies b c own inner) :
    (out.generated ++ [(n, out.lines)]).Perm (numbered n (own :: inner)) := by
  rw [numbered, h.lines, ← hn]
  exact List.perm_append_comm.trans (h.generated.cons _)

end Compiled.Links

mutual

/-- **Compiling a body** makes its sites, and a function for each body inside it. -/
theorem links_compileBody {all : List (List Statement)} : ∀ (body : List Statement) (c : Counters),
    innerBodies body <+: all.drop c.functions → ∃ own inner,
      (compileBody c body).Links all body (innerBodies body) (branchCount body) c own inner
  | [], c, _ => ⟨[], [], .nil, .nil, rfl, .refl _, .nil c⟩
  | s :: ss, c, h => by
    obtain ⟨hfirst, hrest⟩ := prefix_drop_of_append h
    obtain ⟨own, inner, hs⟩ := links_compileStatement s c hfirst
    rw [← hs.functions_after] at hrest
    obtain ⟨own', inner', hss⟩ := links_compileBody ss (compileStatement c s).after hrest
    exact ⟨own ++ own', inner ++ inner', hs.append hss⟩

theorem links_compileStatement {all : List (List Statement)} : ∀ (s : Statement) (c : Counters),
    statementBodies s <+: all.drop c.functions → ∃ own inner,
      (compileStatement c s).Links all [s] (statementBodies s) (statementBranches s) c own inner
  | .line text, c, _ =>
    ⟨[.line text], [], .cons (.line text) .nil, .nil, rfl, .refl _, .line c text⟩
  | .block head body, c, h => by
    obtain ⟨hbody, h⟩ := prefix_drop_of_cons h
    obtain ⟨own, inner, hlinks⟩ :=
      links_compileBody body { c with functions := c.functions + 1 } h
    exact ⟨[.block head c.functions], own :: inner, .cons (.block head hbody) .nil,
      .cons hlinks.compiles hlinks.inside, rfl, hlinks.generated_snoc rfl, hlinks.allots.block head⟩
  | .branch cond yes [], c, h => by
    rw [statementBodies, List.isEmpty_nil, if_pos rfl, List.append_nil] at h
    obtain ⟨hyes, h⟩ := prefix_drop_of_cons h
    obtain ⟨own, inner, hlinks⟩ := links_compileBody yes ⟨c.functions + 1, c.flags + 1⟩ h
    refine ⟨[.branch cond c.flags c.functions none], own :: inner,
      .cons (.branch cond c.flags hyes) .nil, ?_, rfl, hlinks.generated_snoc rfl,
      hlinks.allots.branch cond⟩
    rw [statementBodies, List.isEmpty_nil, if_pos rfl, List.append_nil]
    exact .cons hlinks.compiles hlinks.inside
  | .branch cond yes (n :: no), c, h => by
    rw [statementBodies, List.isEmpty_cons, if_neg Bool.false_ne_true] at h
    obtain ⟨hyes, h⟩ := prefix_drop_of_cons h
    obtain ⟨hinner, h⟩ := prefix_drop_of_append h
    obtain ⟨own, inner, hfirst⟩ := links_compileBody yes ⟨c.functions + 1, c.flags + 1⟩ hinner
    set first := compileBody ⟨c.functions + 1, c.flags + 1⟩ yes with hfirst_def
    -- the second body begins with the number that the first one leaves
    rw [← hfirst.functions_after] at h
    obtain ⟨hno, h⟩ := prefix_drop_of_cons h
    obtain ⟨own', inner', hsecond⟩ :=
      links_compileBody (n :: no) { first.after with functions := first.after.functions + 1 } h
    refine ⟨[.branch cond c.flags c.functions (some first.after.functions)],
      own :: inner ++ own' :: inner', .cons (.branches cond c.flags hyes (List.cons_ne_nil _ _) hno)
        .nil, ?_, ?_, ?_, ?_⟩
    · rw [statementBodies, List.isEmpty_cons, if_neg Bool.false_ne_true]
      exact List.rel_append (.cons hfirst.compiles hfirst.inside)
        (.cons hsecond.compiles hsecond.inside)
    · simp only [compileStatement, List.isEmpty_cons, Bool.false_eq_true, if_false]
      rfl
    · have hnumber : c.functions + (own :: inner).length = first.after.functions := by
        rw [hfirst.allots.functions_after, List.length_cons]
        dsimp only
        omega
      simp only [compileStatement, List.isEmpty_cons, Bool.false_eq_true, if_false]
      rw [← hfirst_def, numbered_append, hnumber, List.append_assoc]
      exact (hfirst.generated_snoc rfl).append (hsecond.generated_snoc rfl)
    · simp only [compileStatement, List.isEmpty_cons, Bool.false_eq_true, if_false]
      exact hfirst.allots.branches cond hsecond.allots

end

end Statuary
