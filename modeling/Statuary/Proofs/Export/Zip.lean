import Mathlib.Data.List.Nodup
import Mathlib.Data.List.Perm.Basic
import Statuary.Proofs.Assoc
import Statuary.Proofs.Export.Delivery
import Statuary.Proofs.Tag.Reading
import Statuary.Proofs.Text.Bytes

/-!
# A pack in an archive and a pack below a directory

The files of a pack go into an archive sorted by path, and below a directory in the order in which
they are given. Where no two of them have one path, this makes no difference: the two ways take the
same lists of files, and **the archive has the files that the directory has**
(`Statuary.Zip.ofFiles_agrees`).

That the archive does not depend on the order of the files is because the paths differ in their
bytes: there is one way to sort them (`Statuary.Zip.sorted_eq_of_perm`), whatever sorting does with
files of one path. That no file below the directory is written over is because the paths are clean:
two clean paths that lead to one place below it are the same (`Statuary.Delivery.eq_of_join_eq`).
The writer is any that never fails and keeps what it is given (`Statuary.Delivery.Keeps`).
-/

namespace Statuary

/-- A result for each item, where it is known which items have one. -/
theorem mapM_eq_ok_iff {ε α β : Type} {f : α → Except ε β} {p : α → Prop} {g : α → β}
    {as : List α} (h : ∀ a ∈ as, ∀ b, f a = .ok b ↔ p a ∧ b = g a) {bs : List β} :
    as.mapM f = .ok bs ↔ (∀ a ∈ as, p a) ∧ bs = as.map g := by
  constructor
  · intro hbs
    have hpairs := forall₂_of_mapM hbs
    clear hbs
    induction hpairs with
    | nil => exact ⟨fun _ ha => absurd ha List.not_mem_nil, rfl⟩
    | cons hab _ ih =>
      obtain ⟨ha, has⟩ := List.forall_mem_cons.mp h
      obtain ⟨hp, rfl⟩ := (ha _).mp hab
      obtain ⟨hps, rfl⟩ := ih has
      exact ⟨List.forall_mem_cons.mpr ⟨hp, hps⟩, rfl⟩
  · rintro ⟨hp, rfl⟩
    induction as with
    | nil => rfl
    | cons a as ih =>
      obtain ⟨ha, has⟩ := List.forall_mem_cons.mp h
      obtain ⟨hpa, hpas⟩ := List.forall_mem_cons.mp hp
      rw [List.mapM_cons, (ha _).mpr ⟨hpa, rfl⟩, ok_bind, ih has hpas, ok_bind]
      rfl

namespace Zip

/-! ### The order of an archive -/

/-- Files in the order of an archive. -/
def sorted (files : List PackFile) : List PackFile :=
  (Quicksort.sort (fun a b => textLt a.path b.path) files).mergeSort before

/-- No two files have one path, byte for byte. -/
def Distinct (files : List PackFile) : Prop :=
  (files.map fun f => Utf8.encode f.path).Nodup

instance : DecidablePred Distinct :=
  fun files => inferInstanceAs (Decidable (files.map fun f => Utf8.encode f.path).Nodup)

theorem sorted_perm (files : List PackFile) : (sorted files).Perm files :=
  (List.mergeSort_perm _ _).trans (Quicksort.perm_sort _ _)

variable {files files' : List PackFile}

theorem Distinct.perm (h : Distinct files) (hperm : files'.Perm files) : Distinct files' :=
  ((hperm.map _).nodup_iff).mpr h

theorem Distinct.nodup_paths (h : Distinct files) : (files.map (·.path)).Nodup := by
  refine List.Nodup.of_map Utf8.encode ?_
  rw [List.map_map]
  exact h

/-- **The paths in an archive increase**, byte for byte. -/
theorem pairwise_sorted (h : Distinct files) :
    (sorted files).Pairwise fun a b => textLt a.path b.path = true := by
  have hle : (sorted files).Pairwise fun a b => before a b = true := by
    refine List.pairwise_mergeSort (fun a b c hab hbc => ?_) (fun a b => ?_) _
    · simp only [before, Bool.not_eq_true'] at *
      exact Utf8.textLt_eq_false_trans hbc hab
    · simpa [before] using (Utf8.textLt_eq_false_total a.path b.path).symm
  have hne := List.pairwise_map.mp (h.perm (sorted_perm files))
  -- the one before is not after the other, and is another one
  refine (hle.and hne).imp fun {a b} hab => ?_
  simp only [before, textLt, Bool.not_eq_true', decide_eq_false_iff_not, List.not_lt] at hab
  simp only [textLt, decide_eq_true_eq]
  by_contra hlt
  exact hab.2 (List.le_antisymm hab.1 (List.not_lt.mp hlt))

/-- **There is one way to sort** files with different paths. -/
theorem sorted_eq_of_perm (h : Distinct files) (hperm : files'.Perm files) :
    sorted files' = sorted files := by
  have hsame : (sorted files').Perm (sorted files) :=
    (sorted_perm files').trans (hperm.trans (sorted_perm files).symm)
  refine hsame.eq_of_pairwise (fun a b _ _ hab hba => ?_) (pairwise_sorted (h.perm hperm))
    (pairwise_sorted h)
  simp only [textLt, decide_eq_true_eq] at hab hba
  exact absurd hba (List.lt_asymm hab)

/-! ### Which files are taken -/

/-- The archive can store the file: its path is no directory and not too long. -/
structure Storable (f : PackFile) : Prop where
  noDirectory : f.path.toList.getLast? ≠ some '/'
  short : Utf8.size f.path ≤ nameBytes

/-- The entry of a file with its content. -/
def storedEntry (f : PackFile) : ZipEntry :=
  ⟨f.path, f.data, epoch, true⟩

theorem entry_eq_ok_iff {f : PackFile} (h : Storable f) {e : ZipEntry} :
    entry f = .ok e ↔ isPackPath f.path = true ∧ e = storedEntry f := by
  rw [entry, if_neg (Nat.not_lt.mpr h.short), if_neg h.noDirectory]
  cases isPackPath f.path <;> simp [storedEntry, eq_comm]

/-- **The archive of files** is made exactly if all their paths are good ones. -/
theorem ofFiles_eq_ok_iff (h : ∀ f ∈ files, Storable f) {es : List ZipEntry} :
    ofFiles files = .ok es ↔
      (∀ f ∈ files, isPackPath f.path = true) ∧ es = (sorted files).map storedEntry := by
  have hmem : ∀ f, f ∈ sorted files ↔ f ∈ files := fun f => (sorted_perm files).mem_iff
  have hentries : (sorted files).mapM entry = .ok es ↔ _ := mapM_eq_ok_iff fun f hf e =>
    entry_eq_ok_iff (h f ((hmem f).mp hf))
  simp only [hmem] at hentries
  exact hentries

/-- What an archive has under its names. -/
def contents (es : List ZipEntry) : List (String × String) :=
  es.map fun e => (e.name, e.data)

theorem contents_perm (files : List PackFile) :
    (contents ((sorted files).map storedEntry)).Perm (files.map fun f => (f.path, f.data)) := by
  rw [contents, List.map_map]
  exact (sorted_perm files).map _

end Zip

namespace Delivery

/-! ### Writers that keep what they are given -/

section Keeps

variable {σ : Type} {write : Writer (StateM σ)} {root : String} {files : List PackFile}

/-- The writer never fails. -/
def Succeeds (write : Writer (StateM σ)) : Prop :=
  ∀ path content w, ((write path content).run w).1 = .ok ()

/-- **The writer keeps what it is given**: it never fails, what it was given last is found at its
path, and it leaves every other path alone. -/
structure Keeps (write : Writer (StateM σ)) (look : σ → String → Option Content) : Prop where
  succeeds : Succeeds write
  finds : ∀ path content w p,
    look ((write path content).run w).2 p = if p = path then some content else look w p

theorem run_of_succeeds (h : Succeeds write) {f : PackFile} (hf : isPackPath f.path = true)
    (w : σ) : (writeBelow write root (f :: files)).run w =
      (writeBelow write root files).run ((write (target root f) (.text f.data)).run w).2 :=
  run_written hf (Prod.ext (h _ _ w) rfl)

/-- **Below a directory, files are taken** exactly if all their paths are good ones. -/
theorem writeBelow_eq_ok_iff (h : Succeeds write) (w : σ) :
    ((writeBelow write root files).run w).1 = .ok () ↔ ∀ f ∈ files, isPackPath f.path = true := by
  induction files generalizing w with
  | nil => exact iff_of_true rfl fun _ hf => absurd hf List.not_mem_nil
  | cons f files ih =>
    rw [List.forall_mem_cons]
    cases hf : isPackPath f.path with
    | false =>
      rw [run_refused hf]
      exact iff_of_false nofun fun hall => nomatch hall.1
    | true =>
      rw [run_of_succeeds h hf, ih]
      exact (and_iff_right rfl).symm

/-- The files and where they are written. -/
def targets (root : String) (files : List PackFile) : List (String × Content) :=
  files.map fun f => (target root f, .text f.data)

/-- **What is found after all files are written**: at the path of a file its content, and everywhere
else what was there before. -/
theorem look_writeBelow {look : σ → String → Option Content} (h : Keeps write look)
    (hfiles : ∀ f ∈ files, isPackPath f.path = true)
    (hapart : (Assoc.keys (targets root files)).Nodup) (w : σ) (p : String) :
    look ((writeBelow write root files).run w).2 p =
      ((targets root files).lookup p).or (look w p) := by
  induction files generalizing w with
  | nil => rfl
  | cons f files ih =>
    obtain ⟨hf, hfiles⟩ := List.forall_mem_cons.mp hfiles
    obtain ⟨hnew, hapart⟩ := List.nodup_cons.mp hapart
    have hcons : targets root (f :: files) =
        (target root f, .text f.data) :: targets root files := rfl
    rw [run_of_succeeds h.succeeds hf, ih hfiles hapart, h.finds, hcons, List.lookup_cons]
    by_cases hp : p = target root f
    · -- no file after this one has its path
      have hnone : (targets root files).lookup (target root f) = none :=
        Assoc.lookup_eq_none_iff.mpr hnew
      rw [hp, hnone, if_pos rfl, beq_self_eq_true]
      rfl
    · rw [if_neg hp, beq_eq_false_iff_ne.mpr hp]

end Keeps

/-! ### Clean paths below a directory -/

section Clean

variable {root q q' : String}

/-- A clean path that is good for a pack. -/
structure IsCleanPackPath (q : String) : Prop where
  isPackPath : isPackPath q = true
  clean_eq : Path.clean q = q

/-- **Two clean paths lead to one place below a directory** only if they are the same. -/
theorem eq_of_join_eq (hq : IsCleanPackPath q) (hq' : IsCleanPackPath q')
    (h : Path.join [root, q] = Path.join [root, q']) : q = q' := by
  -- a clean path without steps upwards is made of the names that are stepped into
  have hbuild : ∀ {p}, IsCleanPackPath p →
      p = Path.build false ((Path.segments p).filter fun s => decide (Path.IsPlain s)) := by
    intro p hp
    obtain ⟨-, hrooted, -, hup⟩ := isPackPath_iff.mp hp.isPackPath
    have hnames := Path.resolve_append_of_notMem false [] hup
    rw [List.nil_append] at hnames
    conv_lhs => rw [← hp.clean_eq, Path.clean, hrooted, hnames]
    rfl
  have hlies := liesAt_target (f := ⟨q, ""⟩) root hq.isPackPath
  have hlies' := liesAt_target (f := ⟨q', ""⟩) root hq'.isPackPath
  rw [target, h] at hlies
  rw [hbuild hq, hbuild hq', hlies.unique hlies']

variable {files : List PackFile}

theorem nodup_targets (hfiles : ∀ f ∈ files, IsCleanPackPath f.path)
    (hpaths : (files.map (·.path)).Nodup) : (Assoc.keys (targets root files)).Nodup := by
  rw [Assoc.keys, targets, List.map_map]
  refine List.pairwise_map.mpr ((List.pairwise_map.mp hpaths).imp_of_mem fun hf hg hne he => hne ?_)
  exact eq_of_join_eq (hfiles _ hf) (hfiles _ hg) he

/-- At a clean path below the directory is the file of that path. -/
theorem lookup_targets (hfiles : ∀ f ∈ files, IsCleanPackPath f.path) (hq : IsCleanPackPath q) :
    (targets root files).lookup (Path.join [root, q]) =
      ((files.map fun f => (f.path, f.data)).lookup q).map .text := by
  induction files with
  | nil => rfl
  | cons f files ih =>
    obtain ⟨hf, hfiles⟩ := List.forall_mem_cons.mp hfiles
    rw [targets, List.map_cons, List.map_cons, List.lookup_cons, List.lookup_cons]
    by_cases he : q = f.path
    · subst he
      rw [target, beq_self_eq_true, beq_self_eq_true]
      rfl
    · have hne : Path.join [root, q] ≠ target root f := fun h => he (eq_of_join_eq hq hf h)
      rw [beq_eq_false_iff_ne.mpr he, beq_eq_false_iff_ne.mpr hne]
      exact ih hfiles

end Clean

end Delivery

/-! ### Both ways to write a pack -/

namespace Zip

/-- **The archive and the directory agree.** Of files with different paths, none of them a
directory:

* the archive does not depend on their order;
* the archive is made exactly if they can be written below a directory, by a writer that never
  fails;
* the archive has one entry for each file, with its content and the one time stamp, and the paths of
  its entries increase byte for byte;
* if their paths are clean and the writer keeps what it is given, then what is found at a clean path
  below the directory is what the archive has under it, or what was there before, and nothing is
  written elsewhere. -/
theorem ofFiles_agrees {files : List PackFile} (hdistinct : Distinct files)
    (hstorable : ∀ f ∈ files, Storable f) (root : String) :
    (∀ files', files'.Perm files → ofFiles files' = ofFiles files) ∧
    (∀ (σ : Type) (write : Writer (StateM σ)) (w : σ), Delivery.Succeeds write →
      ((∃ es, ofFiles files = .ok es) ↔
        ((Delivery.writeBelow write root files).run w).1 = .ok ())) ∧
    ∀ es, ofFiles files = .ok es →
      (contents es).Perm (files.map fun f => (f.path, f.data)) ∧
      (∀ e ∈ es, e.modified = epoch) ∧
      (es.Pairwise fun a b => textLt a.name b.name = true) ∧
      ((∀ f ∈ files, Path.clean f.path = f.path) →
        ∀ (σ : Type) (write : Writer (StateM σ)) (look : σ → String → Option Content) (w : σ),
        Delivery.Keeps write look →
          (∀ q, isPackPath q = true → Path.clean q = q →
            look ((Delivery.writeBelow write root files).run w).2 (Path.join [root, q]) =
              (((contents es).lookup q).map .text).or (look w (Path.join [root, q]))) ∧
          ∀ p, (∀ e ∈ es, p ≠ Path.join [root, e.name]) →
            look ((Delivery.writeBelow write root files).run w).2 p = look w p) := by
  refine ⟨fun files' hperm => ?_, fun σ write w hwrite => ?_, fun es hes => ?_⟩
  · exact congrArg (List.mapM entry) (sorted_eq_of_perm hdistinct hperm)
  · rw [Delivery.writeBelow_eq_ok_iff hwrite]
    simp only [ofFiles_eq_ok_iff hstorable]
    exact ⟨fun ⟨_, hfiles, _⟩ => hfiles, fun hfiles => ⟨_, hfiles, rfl⟩⟩
  · obtain ⟨hfiles, rfl⟩ := (ofFiles_eq_ok_iff hstorable).mp hes
    have hperm := contents_perm files
    refine ⟨hperm, List.forall_mem_map.mpr fun _ _ => rfl,
      List.pairwise_map.mpr (pairwise_sorted hdistinct), fun hclean σ write look w hkeeps => ?_⟩
    have hgood : ∀ f ∈ files, Delivery.IsCleanPackPath f.path := fun f hf =>
      ⟨hfiles f hf, hclean f hf⟩
    have hapart : (Assoc.keys (Delivery.targets root files)).Nodup :=
      Delivery.nodup_targets hgood hdistinct.nodup_paths
    have hlook := Delivery.look_writeBelow hkeeps hfiles hapart w
    have hkeys : (Assoc.keys (files.map fun f => (f.path, f.data))).Nodup := by
      rw [Assoc.keys, List.map_map]
      exact hdistinct.nodup_paths
    refine ⟨fun q hq hqclean => ?_, fun p hp => ?_⟩
    · rw [hlook, Delivery.lookup_targets hgood ⟨hq, hqclean⟩,
        Assoc.lookup_of_perm hkeys hperm.symm]
    · have hnew : p ∉ Assoc.keys (Delivery.targets root files) := by
        intro hmem
        obtain ⟨_, ht, rfl⟩ := List.mem_map.mp hmem
        obtain ⟨f, hf, rfl⟩ := List.mem_map.mp ht
        refine hp (storedEntry f) (List.mem_map_of_mem ?_) rfl
        exact (sorted_perm files).mem_iff.mpr hf
      rw [hlook, Assoc.lookup_eq_none_iff.mpr hnew, Option.none_or]

end Zip

namespace Delivery

/-- A writer that notes contents under their paths. -/
def storing : Writer (StateM (List (String × Content))) :=
  fun path content w => (.ok (), Assoc.put path content w)

theorem keeps_storing : Keeps storing fun w p => w.lookup p :=
  ⟨fun _ _ _ => rfl, fun path content w p => Assoc.lookup_put path p content w⟩

end Delivery

namespace Zip

/-- Files out of order, one of them the directory itself. -/
def unsorted : List PackFile :=
  [⟨"pack.mcmeta", "m"⟩, ⟨"data/a", "x"⟩, ⟨"data-b", ""⟩, ⟨".", "y"⟩]

theorem ofFiles_agrees_unsorted :
    ofFiles unsorted.reverse = ofFiles unsorted ∧
    ∃ es, ofFiles unsorted = .ok es ∧
      (es.Pairwise fun a b => textLt a.name b.name = true) ∧
      (contents es).lookup "data/a" = some "x" ∧
      ((Delivery.writeBelow Delivery.storing "out" unsorted).run []).2.lookup "out/data/a" =
        some (.text "x") := by
  have hstorable : ∀ f ∈ unsorted, Storable f := by
    have hall : ∀ f ∈ unsorted, f.path.toList.getLast? ≠ some '/' ∧
        Utf8.size f.path ≤ nameBytes := by decide
    exact fun f hf => ⟨(hall f hf).1, (hall f hf).2⟩
  have hdistinct : Distinct unsorted := by decide
  obtain ⟨horder, htaken, hagree⟩ := ofFiles_agrees hdistinct hstorable "out"
  obtain ⟨es, hes⟩ := (htaken _ _ [] Delivery.keeps_storing.succeeds).mpr rfl
  obtain ⟨hperm, -, hsorted, hlook⟩ := hagree es hes
  obtain ⟨hsame, -⟩ := hlook (by decide) _ _ _ [] Delivery.keeps_storing
  have hkeys : (Assoc.keys (unsorted.map fun f => (f.path, f.data))).Nodup := by decide
  have hcontent : (contents es).lookup "data/a" = some "x" := by
    rw [← Assoc.lookup_of_perm hkeys hperm.symm]
    rfl
  refine ⟨horder _ (List.reverse_perm _), es, hes, hsorted, hcontent, ?_⟩
  have hfound := hsame "data/a" (by decide) (by decide)
  rw [hcontent] at hfound
  exact hfound

end Zip

end Statuary
