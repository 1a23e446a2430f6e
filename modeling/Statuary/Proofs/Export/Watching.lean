import Mathlib.Data.List.Basic
import Mathlib.Logic.Function.Iterate
import Statuary.Export.Watch
import Statuary.Files.Tree
import Statuary.Proofs.Number.Numeral

/-!
# A watch misses nothing

The sample of a watch is one text, and its paths may have any characters in them. Still it says of
every file whether it is there, its time and its size: **two samples of the same paths are equal
exactly if all files look the same** (`Statuary.sampleFrom_eq_iff`), for the texts of a path are
read off together, and what follows the path has an end of its own.

What goes on beside a watch is a history of the files, at every moment a state of all of them
(`Statuary.Schedule`). Operations of the watch take a moment each, and between any two of them
anything may happen, also between the looks at two files and while an export reads them. An export
begins exactly if a file looks different from what the last sample says
(`Statuary.Schedule.Remembers.tick`).

That alone does not mean that the files have been read as they are, as a change that cannot be seen
is not seen. If every change of a file **gives it a look that it never had**
(`Statuary.FileSystem.IsFresh`) then a file that looks like before has not changed in between
(`Statuary.FileSystem.IsFresh.content_eq`), so whatever the last export has read is what is there
at a tick without an export.
-/

namespace Statuary

variable {σ τ α β : Type}

/-! ### The text of a sample -/

/-- What follows the path in the part of a sample about one file. -/
def stampText : Option FileStamp → List Char
  | none => ['m', 'i', 's', 's', 'i', 'n', 'g', ';']
  | some s => intDigits s.time ++ ':' :: (natDigits s.size ++ [';'])

theorem toList_sampleText (path : String) (s : Option FileStamp) :
    (sampleText path s).toList = path.toList ++ ':' :: stampText s := by
  rcases s with _ | s
  · rw [sampleText, String.toList_append, stampText]
    rfl
  · simp only [sampleText, stampText, String.toList_append, String.toList_ofList, List.append_assoc]
    rfl

theorem intDigits_injective {m n : ℤ} (h : intDigits m = intDigits n) : m = n := by
  have hread := readInteger_intDigits m
  rw [h, readInteger_intDigits] at hread
  exact (Option.some.inj hread).symm

theorem natDigits_injective {m n : ℕ} (h : natDigits m = natDigits n) : m = n := by
  rw [← digitsValue_natDigits m, h, digitsValue_natDigits]

/-- No number has a mark in it that ends a part. -/
theorem notMem_intDigits {n : ℤ} {c : Char} (hsign : c ≠ '-') (hdigit : isDigit c = false) :
    c ∉ intDigits n := by
  intro hc
  rcases mem_intDigits hc with rfl | hc
  · exact hsign rfl
  · rw [hdigit] at hc
    cases hc

theorem notMem_natDigits {n : ℕ} {c : Char} (hdigit : isDigit c = false) : c ∉ natDigits n := by
  intro hc
  rw [isDigit_of_mem_natDigits hc] at hdigit
  cases hdigit

/-- What stands before a mark is read off if the mark is not in it. -/
theorem append_mark_inj {c : Char} {xs ys rest rest' : List Char} (hx : c ∉ xs) (hy : c ∉ ys)
    (h : xs ++ c :: rest = ys ++ c :: rest') : xs = ys ∧ rest = rest' := by
  have hfront : ∀ {zs r : List Char}, c ∉ zs → (zs ++ c :: r).takeWhile (· != c) = zs := by
    intro zs r hz
    have hall : ∀ d ∈ zs, (d != c) = true := fun d hd => bne_iff_ne.mpr fun he => hz (he ▸ hd)
    rw [List.takeWhile_append_of_pos hall, List.takeWhile_cons_of_neg (by simp), List.append_nil]
  obtain rfl : xs = ys := by rw [← hfront hx, h, hfront hy]
  exact ⟨rfl, (List.cons.inj (List.append_cancel_left h)).2⟩

/-- No time begins like the word for a missing file. -/
theorem stampText_some_ne (s : FileStamp) (rest : List Char) :
    ∀ c ∈ (stampText (some s) ++ rest).head?, c ≠ 'm' := by
  obtain ⟨c, cs, hcs⟩ := List.exists_cons_of_ne_nil (intDigits_ne_nil s.time)
  have hm : c ∈ intDigits s.time := hcs ▸ List.mem_cons_self
  rw [stampText, hcs]
  rintro d ⟨rfl⟩ rfl
  exact notMem_intDigits (by decide) (by decide) hm

/-- **What follows the path is read off**: with whatever text behind it, it tells the stamp. -/
theorem stampText_append_inj {a b : Option FileStamp} {rest rest' : List Char}
    (h : stampText a ++ rest = stampText b ++ rest') : a = b ∧ rest = rest' := by
  rcases a with _ | a <;> rcases b with _ | b
  · exact ⟨rfl, List.append_cancel_left h⟩
  · have hne := stampText_some_ne b rest'
    rw [← h] at hne
    exact absurd rfl (hne 'm' rfl)
  · have hne := stampText_some_ne a rest
    rw [h] at hne
    exact absurd rfl (hne 'm' rfl)
  · have hcolon (n : ℤ) : ':' ∉ intDigits n := notMem_intDigits (by decide) (by decide)
    have hend (n : ℕ) : ';' ∉ natDigits n := notMem_natDigits (by decide)
    simp only [stampText, List.append_assoc, List.cons_append, List.nil_append] at h
    obtain ⟨htime, hafter⟩ := append_mark_inj (hcolon _) (hcolon _) h
    obtain ⟨hsize, hrest⟩ := append_mark_inj (hend _) (hend _) hafter
    have hstamp : (⟨a.time, a.size⟩ : FileStamp) = ⟨b.time, b.size⟩ := by
      rw [intDigits_injective htime, natDigits_injective hsize]
    exact ⟨congrArg some hstamp, hrest⟩

/-- The sample of paths, given what each of them looks like when its turn comes. -/
def sampleFrom (seen : ℕ → String → Option FileStamp) (paths : List String) : String :=
  String.join (paths.mapIdx fun i p => sampleText p (seen i p))

theorem sampleFrom_cons (seen : ℕ → String → Option FileStamp) (p : String) (paths : List String) :
    sampleFrom seen (p :: paths) =
      sampleText p (seen 0 p) ++ sampleFrom (fun i => seen (i + 1)) paths := by
  rw [sampleFrom, List.mapIdx_cons, String.join_cons, sampleFrom]

/-- **Samples are equal** exactly if all files look the same. -/
theorem sampleFrom_eq_iff {seen seen' : ℕ → String → Option FileStamp} {paths : List String} :
    sampleFrom seen paths = sampleFrom seen' paths ↔
      ∀ (i : ℕ) (h : i < paths.length), seen i paths[i] = seen' i paths[i] := by
  induction paths generalizing seen seen' with
  | nil => exact iff_of_true rfl fun i h => absurd h (Nat.not_lt_zero i)
  | cons p paths ih =>
    have hcons : sampleFrom seen (p :: paths) = sampleFrom seen' (p :: paths) ↔
        seen 0 p = seen' 0 p ∧
          sampleFrom (fun i => seen (i + 1)) paths = sampleFrom (fun i => seen' (i + 1)) paths := by
      rw [sampleFrom_cons, sampleFrom_cons]
      constructor
      · intro h
        have htext := congrArg String.toList h
        simp only [String.toList_append, toList_sampleText, List.append_assoc,
          List.cons_append] at htext
        obtain ⟨hseen, hrest⟩ :=
          stampText_append_inj (List.cons.inj (List.append_cancel_left htext)).2
        exact ⟨hseen, String.toList_inj.mp hrest⟩
      · rintro ⟨hseen, hrest⟩
        rw [hseen, hrest]
    rw [hcons, ih]
    constructor
    · rintro ⟨hfirst, hrest⟩ (_ | i) h
      · exact hfirst
      · exact hrest i (Nat.lt_of_succ_lt_succ h)
    · exact fun h => ⟨h 0 (Nat.succ_pos _), fun i hi => h (i + 1) (Nat.succ_lt_succ hi)⟩

/-! ### Taking a sample -/

namespace FileSystem

theorem sample_cons (fs : FileSystem (StateM τ) α) (p : String) (paths : List String) :
    fs.sample (p :: paths) = do
      let s ← fs.stamp p
      let rest ← fs.sample paths
      return sampleText p s ++ rest := by
  simp [sample, List.mapM_cons, String.join_cons]

/-- A sample is taken path by path, from one state to the next. -/
theorem run_sample (fs : FileSystem (StateM τ) α) (seen : τ → String → Option FileStamp)
    (next : τ → τ) (h : ∀ p x, (fs.stamp p).run x = (seen x p, next x)) (paths : List String)
    (x : τ) :
    (fs.sample paths).run x = (sampleFrom (fun i => seen (next^[i] x)) paths,
      next^[paths.length] x) := by
  induction paths generalizing x with
  | nil => rfl
  | cons p paths ih =>
    rw [sample_cons, StateT.run_bind, h]
    simp only [StateT.run_bind, ih, sampleFrom_cons]
    rfl

end FileSystem

/-! ### What is seen of files -/

namespace FileSystem

variable (fs : FileSystem (StateM σ) α)

/-- What can be seen of the file at a path. -/
def stampOf (x : σ) (path : String) : Option FileStamp :=
  ((fs.stamp path).run x).1

/-- What is read from the file at a path. -/
def contentOf (x : σ) (path : String) : Except FileError α :=
  ((fs.read path).run x).1

/-- A sample of files that stand still. -/
theorem run_sample_of_still {fs : FileSystem (StateM σ) α}
    (h : ∀ p x, ((fs.stamp p).run x).2 = x) (paths : List String) (x : σ) :
    ((fs.sample paths).run x).1 = sampleFrom (fun _ => fs.stampOf x) paths := by
  rw [fs.run_sample fs.stampOf id fun p x => Prod.ext rfl (h p x)]
  simp only [Function.iterate_id, id]

/-- **Every change is new**: what a file looks like after a change of its look or its content it
has never looked like before. -/
def IsFresh (files : ℕ → σ) (path : String) : Prop :=
  ∀ t, (fs.stampOf (files (t + 1)) path = fs.stampOf (files t) path ∧
      fs.contentOf (files (t + 1)) path = fs.contentOf (files t) path) ∨
    ∀ u ≤ t, fs.stampOf (files u) path ≠ fs.stampOf (files (t + 1)) path

variable {fs} {files : ℕ → σ} {path : String}

/-- **A file that looks like before has not changed in between.** -/
theorem IsFresh.content_eq (h : fs.IsFresh files path) {a b : ℕ}
    (hlook : fs.stampOf (files a) path = fs.stampOf (files b) path) {t : ℕ} (hat : a ≤ t)
    (htb : t ≤ b) : fs.contentOf (files t) path = fs.contentOf (files b) path := by
  induction b, hat.trans htb using Nat.le_induction generalizing t with
  | base => rw [Nat.le_antisymm htb hat]
  | succ b hab ih =>
    rcases h b with ⟨hstamp, hcontent⟩ | hnew
    · rcases Nat.lt_or_eq_of_le htb with hlt | rfl
      · rw [hcontent]
        exact ih (hlook.trans hstamp) hat (Nat.le_of_lt_succ hlt)
      · rfl
    · exact absurd hlook (hnew a hab)

end FileSystem

/-! ### A watch among changes -/

/-- A clock beside a watch. -/
structure Clock where
  /-- The moment. -/
  now : ℕ
  /-- The moment at which the last export began. -/
  began : ℕ
  /-- The number of exports. -/
  exports : ℕ

/-- **What goes on beside a watch.** -/
structure Schedule (σ : Type) where
  /-- The files at every moment. -/
  files : ℕ → σ
  /-- How long an export takes that begins at a moment. -/
  duration : ℕ → ℕ
  /-- How long it is from a moment to the next tick. -/
  pause : ℕ → ℕ

namespace Schedule

variable (s : Schedule σ) (fs : FileSystem (StateM σ) α) (paths : List String)

/-- An operation on the files of the moment, until the next. What it does to them is part of their
history. -/
def perform (op : StateM σ β) : StateM Clock β :=
  fun c => ((op.run (s.files c.now)).1, { c with now := c.now + 1 })

/-- The operations on files, each at its moment. -/
def system : FileSystem (StateM Clock) α where
  isDir? path := s.perform (fs.isDir? path)
  makeDir path := s.perform (fs.makeDir path)
  write path data := s.perform (fs.write path data)
  rename before after := s.perform (fs.rename before after)
  remove path := s.perform (fs.remove path)
  read path := s.perform (fs.read path)
  stamp path := s.perform (fs.stamp path)

/-- An export. -/
def exporting : StateM Clock Unit :=
  fun c => ((), ⟨c.now + s.duration c.now, c.now, c.exports + 1⟩)

/-- The time between two ticks. -/
def pausing : StateM Clock Unit :=
  fun c => ((), { c with now := c.now + s.pause c.now })

/-- A tick of a watch. -/
def tick (w : Watch) : StateM Clock Watch :=
  w.tick (s.system fs) s.exporting

/-- A watch after a number of ticks, when the next one is due. -/
def watching : ℕ → StateM Clock Watch
  | 0 => do
    let w ← Watch.start (s.system fs) paths s.exporting
    s.pausing
    return w
  | k + 1 => do
    let w ← s.tick fs (← watching k)
    s.pausing
    return w

variable {s fs paths}

/-- A sample has of every file what it looks like at its moment. -/
theorem run_sample (c : Clock) : ((s.system fs).sample paths).run c =
    (sampleFrom (fun i => fs.stampOf (s.files (c.now + i))) paths,
      { c with now := c.now + paths.length }) := by
  have hnext : ∀ i, (fun c : Clock => { c with now := c.now + 1 })^[i] c =
      { c with now := c.now + i } := by
    intro i
    induction i with
    | zero => rfl
    | succ i ih => rw [Function.iterate_succ_apply', ih, Nat.add_assoc]
  rw [(s.system fs).run_sample (fun c => fs.stampOf (s.files c.now))
    (fun c => { c with now := c.now + 1 }) fun p c => rfl]
  simp only [hnext]

/-- **A tick** takes a sample, and if it is another one than the last an export follows. -/
theorem run_tick (w : Watch) (c : Clock) : (s.tick fs w).run c =
    if sampleFrom (fun i => fs.stampOf (s.files (c.now + i))) w.paths = w.last then
      (w, { c with now := c.now + w.paths.length })
    else
      ({ w with last := sampleFrom (fun i => fs.stampOf (s.files (c.now + i))) w.paths },
        (s.exporting.run { c with now := c.now + w.paths.length }).2) := by
  rw [tick, Watch.tick, StateT.run_bind, run_sample]
  simp only [bind, Watch.see]
  split_ifs <;> rfl

/-! ### What a tick does -/

/-- What a watch knows at a moment: what its files looked like when they were sampled last, before
an export that is over. -/
structure Remembers (s : Schedule σ) (fs : FileSystem (StateM σ) α) (paths : List String)
    (w : Watch) (c : Clock) (sampled : ℕ) : Prop where
  paths_eq : w.paths = paths
  last_eq : w.last = sampleFrom (fun i => fs.stampOf (s.files (sampled + i))) paths
  sampled_add : sampled + paths.length = c.began
  ended : c.began + s.duration c.began ≤ c.now

namespace Remembers

variable {w : Watch} {c : Clock} {sampled : ℕ}

/-- A watch only learns from ticks. -/
theorem pausing (h : s.Remembers fs paths w c sampled) :
    s.Remembers fs paths w (s.pausing.run c).2 sampled :=
  ⟨h.paths_eq, h.last_eq, h.sampled_add, h.ended.trans (Nat.le_add_right ..)⟩

/-- **A tick** either finds all files as they were sampled, and nothing happens, or it takes the
sample before the export that follows. -/
theorem tick (h : s.Remembers fs paths w c sampled) :
    ((∀ (i : ℕ) (hi : i < paths.length), fs.stampOf (s.files (sampled + i)) paths[i] =
        fs.stampOf (s.files (c.now + i)) paths[i]) ∧
      (s.tick fs w).run c = (w, { c with now := c.now + paths.length })) ∨
    ((∃ (i : ℕ) (hi : i < paths.length), fs.stampOf (s.files (sampled + i)) paths[i] ≠
        fs.stampOf (s.files (c.now + i)) paths[i]) ∧
      (s.tick fs w).run c =
        (⟨paths, sampleFrom (fun i => fs.stampOf (s.files (c.now + i))) paths⟩,
          (s.exporting.run { c with now := c.now + paths.length }).2)) := by
  have hiff : sampleFrom (fun i => fs.stampOf (s.files (c.now + i))) w.paths = w.last ↔
      ∀ (i : ℕ) (hi : i < paths.length), fs.stampOf (s.files (sampled + i)) paths[i] =
        fs.stampOf (s.files (c.now + i)) paths[i] := by
    rw [h.paths_eq, h.last_eq, eq_comm, sampleFrom_eq_iff]
  rw [run_tick]
  split_ifs with hsame
  · exact .inl ⟨hiff.mp hsame, by rw [h.paths_eq]⟩
  · refine .inr ⟨?_, by rw [h.paths_eq]⟩
    by_contra hnone
    push Not at hnone
    exact hsame (hiff.mpr hnone)

/-- A watch still knows its files after a tick. -/
theorem exists_tick (h : s.Remembers fs paths w c sampled) :
    ∃ sampled, s.Remembers fs paths ((s.tick fs w).run c).1 ((s.tick fs w).run c).2 sampled := by
  rcases h.tick with ⟨-, hrun⟩ | ⟨-, hrun⟩
  · rw [hrun]
    exact ⟨sampled, h.paths_eq, h.last_eq, h.sampled_add, h.ended.trans (Nat.le_add_right ..)⟩
  · rw [hrun]
    exact ⟨c.now, rfl, rfl, rfl, le_rfl⟩

end Remembers

/-- **At every tick the watch knows its files.** -/
theorem exists_remembers_watching (k : ℕ) (c : Clock) : ∃ sampled, s.Remembers fs paths
    ((s.watching fs paths k).run c).1 ((s.watching fs paths k).run c).2 sampled := by
  induction k with
  | zero =>
    have hstart : (Watch.start (s.system fs) paths s.exporting).run c =
        (⟨paths, sampleFrom (fun i => fs.stampOf (s.files (c.now + i))) paths⟩,
          (s.exporting.run { c with now := c.now + paths.length }).2) := by
      rw [Watch.start, StateT.run_bind, run_sample]
      rfl
    rw [watching, StateT.run_bind, hstart]
    exact ⟨c.now, Remembers.pausing ⟨rfl, rfl, rfl, le_rfl⟩⟩
  | succ k ih =>
    obtain ⟨sampled, hk⟩ := ih
    obtain ⟨sampled', hk'⟩ := hk.exists_tick
    exact ⟨sampled', hk'.pausing⟩

/-- **What a tick does** between two states of the clock. -/
structure Notices (s : Schedule σ) (fs : FileSystem (StateM σ) α) (paths : List String)
    (c c' : Clock) (sampled : ℕ) : Prop where
  /-- The files were sampled last right before the last export. -/
  sampled_add : sampled + paths.length = c.began
  /-- That export is over. -/
  ended : c.began + s.duration c.began ≤ c.now
  /-- At most one export begins. -/
  exports_eq_or : c'.exports = c.exports ∨ c'.exports = c.exports + 1
  /-- One begins exactly if a file looks different from when it was sampled last. -/
  exports_eq_iff : c'.exports = c.exports + 1 ↔ ∃ (i : ℕ) (hi : i < paths.length),
    fs.stampOf (s.files (sampled + i)) paths[i] ≠ fs.stampOf (s.files (c.now + i)) paths[i]
  /-- If none begins, though every change is new, then at every moment since a file was sampled
  last, and so whenever the last export has read it, there was in it what is in it now. -/
  contentOf_eq : (∀ p ∈ paths, fs.IsFresh s.files p) → c'.exports = c.exports →
    ∀ (i : ℕ) (hi : i < paths.length) (t : ℕ), sampled + i ≤ t → t ≤ c.now + i →
      fs.contentOf (s.files t) paths[i] = fs.contentOf (s.files (c.now + i)) paths[i]

/-- A watch that knows its files notices what it should. -/
theorem Remembers.notices {w : Watch} {c : Clock} {sampled : ℕ}
    (h : s.Remembers fs paths w c sampled) :
    s.Notices fs paths c ((s.tick fs w).run c).2 sampled := by
  rcases h.tick with ⟨hsame, hrun⟩ | ⟨hnew, hrun⟩
  · rw [hrun]
    refine ⟨h.sampled_add, h.ended, .inl rfl, ?_, fun hfresh _ i hi t hst htn => ?_⟩
    · exact iff_of_false (Nat.ne_of_lt (Nat.lt_succ_self _)) fun ⟨i, hi, hne⟩ => hne (hsame i hi)
    · exact (hfresh _ (List.getElem_mem hi)).content_eq (hsame i hi) hst htn
  · rw [hrun]
    refine ⟨h.sampled_add, h.ended, .inr rfl, iff_of_true rfl hnew, fun _ hnone => ?_⟩
    exact absurd hnone (Nat.succ_ne_self _)

/-- **A watch misses nothing and does nothing in vain**: samples tell files apart by their looks,
and every tick exports exactly if it must, whatever happens to the files meanwhile. -/
theorem notices_watching (fs : FileSystem (StateM σ) α)
    (hlook : ∀ p x, ((fs.stamp p).run x).2 = x) (paths : List String) :
    (∀ x y, ((fs.sample paths).run x).1 = ((fs.sample paths).run y).1 ↔
      ∀ p ∈ paths, fs.stampOf x p = fs.stampOf y p) ∧
    ∀ (s : Schedule σ) (k : ℕ) (c : Clock), ∃ sampled,
      s.Notices fs paths ((s.watching fs paths k).run c).2
        ((s.watching fs paths k >>= s.tick fs).run c).2 sampled := by
  refine ⟨fun x y => ?_, fun s k c => ?_⟩
  · rw [FileSystem.run_sample_of_still hlook, FileSystem.run_sample_of_still hlook,
      sampleFrom_eq_iff, List.forall_mem_iff_forall_getElem]
  · obtain ⟨sampled, h⟩ : ∃ sampled, s.Remembers fs paths _ _ sampled :=
      exists_remembers_watching k c
    exact ⟨sampled, h.notices⟩

/-- A file that changes after it was sampled and before it is read. -/
def lateChange : Schedule (FileTree String) where
  files
    | 0 => ⟨[("a", .file "x" 0)], 1⟩
    | _ + 1 => ⟨[("a", .file "y" 1)], 2⟩
  duration _ := 1
  pause _ := 1

/-- The clock when that file is watched, after so many ticks and one more. -/
def lateClock (k : ℕ) : Clock :=
  ((lateChange.watching (FileTree.system String.length) ["a"] k >>=
    lateChange.tick (FileTree.system String.length)).run ⟨0, 0, 0⟩).2

/-- The first tick sees the change, and at the second one the file is as it was exported. -/
theorem notices_watching_lateChange :
    (∀ p x, (((FileTree.system String.length).stamp p).run x).2 = x) ∧
    (FileTree.system String.length).IsFresh lateChange.files "a" ∧
    (lateClock 0).exports = 2 ∧ (lateClock 1).exports = 2 ∧
    ∀ t, 3 ≤ t → t ≤ 6 → (FileTree.system String.length).contentOf (lateChange.files t) "a" =
      (FileTree.system String.length).contentOf (lateChange.files 6) "a" := by
  have hlook : ∀ p x, (((FileTree.system String.length).stamp p).run x).2 = x := fun _ _ => rfl
  have hfresh : (FileTree.system String.length).IsFresh lateChange.files "a" := by
    rintro (_ | t)
    · refine .inr fun u hu => ?_
      obtain rfl := Nat.le_zero.mp hu
      decide
    · exact .inl ⟨rfl, rfl⟩
  obtain ⟨-, hticks⟩ := notices_watching (FileTree.system String.length) hlook ["a"]
  obtain ⟨sampled, hfirst⟩ := hticks lateChange 0 ⟨0, 0, 0⟩
  obtain ⟨sampled', hsecond⟩ := hticks lateChange 1 ⟨0, 0, 0⟩
  obtain rfl : sampled = 0 := Nat.succ.inj hfirst.sampled_add
  obtain rfl : sampled' = 3 := Nat.succ.inj hsecond.sampled_add
  have hnone : (lateClock 1).exports = 2 := by
    refine hsecond.exports_eq_or.resolve_right fun hexport => ?_
    obtain ⟨i, hi, hne⟩ := hsecond.exports_eq_iff.mp hexport
    obtain rfl := Nat.lt_one_iff.mp hi
    exact hne rfl
  refine ⟨hlook, hfresh, hfirst.exports_eq_iff.mpr ⟨0, Nat.one_pos, by decide⟩, hnone, ?_⟩
  exact hsecond.contentOf_eq (List.forall_mem_singleton.mpr hfresh) hnone 0 Nat.one_pos

end Schedule

end Statuary
