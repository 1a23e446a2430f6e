import Mathlib.Data.List.GetD
import Statuary.History.Store
import Statuary.History.Ulid
import Statuary.Proofs.Files.Below
import Statuary.Proofs.Files.Replace
import Statuary.Proofs.History.Envelope
import Statuary.Proofs.Naming.Tags
import Statuary.Proofs.Time.Instant

/-!
# What the store keeps and gives back

A text that the store takes is in the file that its directory, project and id name, behind a header
of plain values, and is taken out as it was put in (`Statuary.Store.put_spec`,
`Statuary.Store.get_of_has`).

The name of that file is the id with an ending, so **texts with different ids are in different
files** (`Statuary.Archive.place_path_ne`), whatever their projects are. The place of the file is
below the directory (`Statuary.Archive.isBelow_path`) unless the project is called like the way
upwards.
-/

namespace Statuary

open Json

/-! ### Plain values -/

theorem isPlainChar_of_isDigit {c : Char} (h : isDigit c = true) : IsPlainChar c := by
  have hall : ∀ c : Char, c.toNat < 0x80 → isDigit c = true → IsPlainChar c :=
    Utf8.forall_char_lt (by decide)
  have hc : c.toNat < 0x80 := by
    rw [isDigit, Bool.and_eq_true, decide_eq_true_eq, decide_eq_true_eq] at h
    exact Nat.lt_of_le_of_lt h.2 (by decide)
  exact hall c hc h

theorem isPlainChar_of_isNameChar {c : Char} (h : isNameChar c = true) : IsPlainChar c := by
  have hall : ∀ c : Char, c.toNat < 0x80 → isNameChar c = true → IsPlainChar c :=
    Utf8.forall_char_lt (by decide)
  have hc : c.toNat < 0x80 := by
    simp only [isNameChar, Bool.or_eq_true, Bool.and_eq_true, decide_eq_true_eq, beq_iff_eq] at h
    rcases h with ((h | h) | rfl) | rfl
    · exact Nat.lt_of_le_of_lt h.2 (by decide)
    · exact Nat.lt_of_le_of_lt h.2 (by decide)
    · decide
    · decide
  exact hall c hc h

theorem Identifier.isPlainText_ofText (s : String) : IsPlainText (ofText s) :=
  fun _ hc => isPlainChar_of_isNameChar (isNameChar_of_mem_ofText hc)

namespace Ulid

theorem mem_digits {width n : ℕ} {c : Char} (h : c ∈ digits width n) : c ∈ alphabet := by
  induction width generalizing n with
  | zero => exact absurd h List.not_mem_nil
  | succ width ih =>
    rw [digits, List.mem_append, List.mem_singleton] at h
    rcases h with h | rfl
    · exact ih h
    · have hlt : n % 32 < alphabet.length := Nat.mod_lt _ (by decide)
      rw [digit, List.getD_eq_getElem _ _ hlt]
      exact List.getElem_mem hlt

theorem length_digits (width n : ℕ) : (digits width n).length = width := by
  induction width generalizing n with
  | zero => rfl
  | succ width ih => rw [digits, List.length_append, ih, List.length_singleton]

theorem mem_text {u : Ulid} {c : Char} (h : c ∈ u.text.toList) : c ∈ alphabet := by
  rw [text, String.toList_ofList] at h
  exact mem_digits h

theorem isPlainText_text (u : Ulid) : IsPlainText u.text :=
  fun c hc => (by decide : IsPlainText "0123456789ABCDEFGHJKMNPQRSTVWXYZ") c (mem_text hc)

theorem slash_notMem_text (u : Ulid) : '/' ∉ u.text.toList :=
  fun hc => absurd (mem_text hc) (by decide)

theorem text_ne_empty (u : Ulid) : u.text ≠ "" := by
  intro h
  have hlength : u.text.toList.length = width := by
    rw [text, String.toList_ofList, length_digits]
  rw [h] at hlength
  exact absurd hlength (by decide)

end Ulid

theorem isPlainText_ofList {cs : List Char} :
    IsPlainText (String.ofList cs) ↔ ∀ c ∈ cs, IsPlainChar c := by
  rw [IsPlainText, String.toList_ofList]

theorem Instant.isPlainText_text (t : Instant) : IsPlainText t.text := by
  have hpad : ∀ width n, ∀ c ∈ padDigits width n, IsPlainChar c := fun width n c hc =>
    isPlainChar_of_isDigit (isDigit_of_mem_padDigits hc)
  have hyear : ∀ c ∈ yearText t.date.year, IsPlainChar c := by
    rw [yearText]
    split_ifs
    · exact List.forall_mem_cons.mpr ⟨by decide, hpad _ _⟩
    · exact hpad _ _
  have hfraction : ∀ c ∈ fractionText t.fraction, IsPlainChar c := by
    rw [fractionText]
    split_ifs
    · exact fun _ hc => absurd hc List.not_mem_nil
    · refine List.forall_mem_cons.mpr ⟨by decide, fun c hc => hpad 9 t.fraction c ?_⟩
      exact List.mem_reverse.mp ((List.dropWhile_sublist _).mem (List.mem_reverse.mp hc))
  rw [text, isPlainText_ofList, clockText]
  simp only [List.forall_mem_append, List.forall_mem_cons]
  have hend : IsPlainChar 'Z' ∧ ∀ c ∈ [], IsPlainChar c :=
    ⟨by decide, fun _ hc => absurd hc List.not_mem_nil⟩
  exact ⟨⟨⟨⟨⟨⟨⟨hyear, by decide, hpad _ _⟩, by decide, hpad _ _⟩, by decide, hpad _ _⟩, by decide,
    hpad _ _⟩, by decide, hpad _ _⟩, hfraction⟩, hend⟩

namespace Archive

variable {dir id project : String}

/-- The ending of the file of a text. -/
def ending : String := ".mc.zst"

theorem isName_file (hid : '/' ∉ id.toList) : Path.IsName (id ++ ending) :=
  Path.isName_append hid (by decide) (by decide)

theorem place_path_eq (hdir : dir ≠ "") (hid : '/' ∉ id.toList) (hempty : project ≠ "")
    (hproject : '/' ∉ project.toList) : Path.place (path dir id project) =
      Path.resolve true (Path.segments dir ++ [project]) ++ [id ++ ending] := by
  have hname := isName_file hid
  have hparts : ∀ p ∈ [dir, project, id ++ ending], p ≠ "" := by
    simp only [List.forall_mem_cons]
    exact ⟨hdir, hempty, hname.1.1, fun _ h => absurd h List.not_mem_nil⟩
  have hsegments : [dir, project, id ++ ending].flatMap Path.segments =
      Path.segments dir ++ [project] ++ [id ++ ending] := by
    simp [Path.segments_of_notMem hproject, Path.segments_of_notMem hname.2]
  have hpath : path dir id project = Path.join [dir, project, id ++ ending] := rfl
  rw [hpath, Path.place_join (List.cons_ne_nil _ _) hparts, hsegments, Path.resolve_append true _
    (List.forall_mem_singleton.mpr hname.1)]

/-- **Texts with different ids have different places.** -/
theorem place_path_ne {id' project' : String} (hdir : dir ≠ "") (hid : '/' ∉ id.toList)
    (hempty : project ≠ "") (hproject : '/' ∉ project.toList) (hid' : '/' ∉ id'.toList)
    (hempty' : project' ≠ "") (hproject' : '/' ∉ project'.toList) (hne : id ≠ id') :
    Path.place (path dir id project) ≠ Path.place (path dir id' project') := by
  rw [place_path_eq hdir hid hempty hproject, place_path_eq hdir hid' hempty' hproject']
  intro h
  exact hne (String.append_left_inj ending |>.mp (List.cons.inj (List.append_inj' h rfl).2).1)

/-- What ends otherwise than a text has another place. -/
theorem place_append_ne (hdir : dir ≠ "") (hid : '/' ∉ id.toList) (hempty : project ≠ "")
    (hproject : '/' ∉ project.toList) (p : String) {e : String} (he : '/' ∉ e.toList)
    (hlength : 2 < e.length) (hlast : e.toList.getLast? ≠ some 't') :
    Path.place (p ++ e) ≠ Path.place (path dir id project) := by
  obtain ⟨names, s, hs⟩ := Path.exists_place_append p he hlength
  rw [hs, place_path_eq hdir hid hempty hproject]
  intro h
  have heq : s ++ e = id ++ ending := (List.cons.inj (List.append_inj' h rfl).2).1
  obtain ⟨cs, c, hc⟩ := (List.eq_nil_or_concat' e.toList).resolve_left fun hnil => by
    rw [String.toList_eq_nil_iff] at hnil
    rw [hnil] at hlength
    exact absurd hlength (by decide)
  have hchars : s.toList ++ cs ++ [c] = id.toList ++ ['.', 'm', 'c', '.', 'z', 's'] ++ ['t'] := by
    have htext := congrArg String.toList heq
    rw [String.toList_append, String.toList_append, hc] at htext
    simpa [ending] using htext
  obtain rfl : c = 't' := (List.cons.inj (List.append_inj' hchars rfl).2).1
  exact hlast (by rw [hc, List.getLast?_concat])

/-- A text lies below the directory at the plain ones among its project and its file. -/
theorem liesAt_path (dir : String) (hid : '/' ∉ id.toList) (hempty : project ≠ "")
    (hproject : '/' ∉ project.toList) (hup : project ≠ "..") :
    Path.LiesAt dir ([project, id ++ ending].filter fun s => decide (Path.IsPlain s))
      (path dir id project) := by
  have hname := isName_file hid
  have hsegments : [project, id ++ ending].flatMap Path.segments = [project, id ++ ending] := by
    simp [Path.segments_of_notMem hproject, Path.segments_of_notMem hname.2]
  have hjoin := Path.liesAt_join dir project [id ++ ending]
    (List.forall_mem_cons.mpr ⟨hempty, List.forall_mem_singleton.mpr hname.1.1⟩)
    (Path.isRooted_of_segments (Path.segments_of_notMem hproject) hempty)
    (by simp [hsegments, Ne.symm hup, Ne.symm hname.1.2.2])
  rwa [hsegments] at hjoin

/-- **A text is below the directory** unless its project is called like the way upwards. -/
theorem isBelow_path (dir : String) (hid : '/' ∉ id.toList) (hempty : project ≠ "")
    (hproject : '/' ∉ project.toList) (hup : project ≠ "..") :
    Path.IsBelow dir (path dir id project) := by
  have hname := isName_file hid
  have hmem : id ++ ending ∈ [project, id ++ ending].filter fun s => decide (Path.IsPlain s) :=
    List.mem_filter.mpr ⟨by simp, decide_eq_true hname.1⟩
  exact ⟨_, List.ne_nil_of_mem hmem, liesAt_path dir hid hempty hproject hup⟩

end Archive

/-! ### Putting and taking out -/

namespace Store

variable {size : Content → ℕ} {t t' : FileTree Content} {dir id project text p : String}
  {now : Instant}

/-- The header of a text that is put into the store. -/
def header (now : Instant) (id project : String) : ArchiveHeader :=
  ⟨Archive.version, id, project, now.text⟩

/-- **Putting a text into the store** puts it where its directory, project and id say, behind its
header, and keeps every other file but for the one beside it. -/
theorem put_spec (h : ((put (FileTree.system size) now dir id project text).run t) = (.ok p, t')) :
    dir ≠ "" ∧ id ≠ "" ∧ project ≠ "" ∧ p = Archive.path dir id project ∧ Path.IsShort p ∧
      t'.Has (Path.place p) (.packed (Archive.envelope (header now id project) text)) ∧
      ∀ {q c}, t.Has q c → q ≠ Path.place p →
        q ≠ Path.place (FileSystem.besideName p) → t'.Has q c := by
  rw [put] at h
  by_cases hblank : isBlank dir = true
  · rw [if_pos hblank] at h
    cases h
  rw [if_neg hblank] at h
  by_cases hkey : id = "" ∨ project = ""
  · rw [if_pos hkey] at h
    cases h
  rw [if_neg hkey] at h
  have hdir : dir ≠ "" := by
    rintro rfl
    exact hblank rfl
  dsimp only at h
  cases hreplace : ((FileTree.system size).replace (Archive.path dir id project)
      (.packed (Archive.envelope (header now id project) text))).run t with
  | mk result t₁ =>
    rw [header] at hreplace
    rw [FileTree.run_bind_eq hreplace] at h
    cases result with
    | error => cases h
    | ok =>
      obtain ⟨hp, rfl⟩ := Prod.mk.inj h
      obtain rfl := Except.ok.inj hp
      have hdone := FileTree.replaced_of_replace hreplace
      exact ⟨hdir, fun hid => hkey (.inl hid), fun hproject => hkey (.inr hproject), rfl,
        hdone.isShort, hdone.has, hdone.has_of_ne⟩

/-- A text is put into the store if its file can be replaced. -/
theorem put_of_replace (hdir : isBlank dir = false) (hid : id ≠ "") (hproject : project ≠ "")
    (h : ((FileTree.system size).replace (Archive.path dir id project)
      (.packed (Archive.envelope (header now id project) text))).run t = (.ok (), t')) :
    (put (FileTree.system size) now dir id project text).run t =
      (.ok (Archive.path dir id project), t') := by
  rw [put, hdir, if_neg Bool.false_ne_true, if_neg (not_or.mpr ⟨hid, hproject⟩)]
  exact FileTree.run_bind_eq h

theorem isPlainHeader_header (now : Instant) (hid : IsPlainText id)
    (hproject : IsPlainText project) :
    Archive.IsPlainHeader (header now id project) :=
  ⟨rfl, hid, hproject, now.isPlainText_text⟩

/-- The path of a text is a shortest one. -/
theorem path_eq_clean (hdir : dir ≠ "") (hid : '/' ∉ id.toList) (hempty : project ≠ "") :
    Archive.path dir id project =
      Path.clean ("/".intercalate [dir, project, id ++ Archive.ending]) := by
  have hname := Archive.isName_file hid
  refine Path.join_eq_clean (List.cons_ne_nil _ _) ?_
  simp only [List.forall_mem_cons]
  exact ⟨hdir, hempty, hname.1.1, fun _ h => absurd h List.not_mem_nil⟩

/-- **What is in the file of a text** is taken out of it. -/
theorem get_of_has {c : Content} (hdir : dir ≠ "") (hid : '/' ∉ id.toList) (hempty : project ≠ "")
    (hshort : Path.IsShort (Archive.path dir id project))
    (hc : t.Has (Path.place (Archive.path dir id project)) c) :
    ((get (FileTree.system size) (Archive.path dir id project)).run t).1 = openContent c := by
  have hread : ((FileTree.system size).read (Archive.path dir id project)).run t = (.ok c, t) := by
    have hclean := path_eq_clean hdir hid hempty
    rw [hclean] at hshort hc ⊢
    rw [Path.place_clean] at hc
    have hread := FileTree.read_clean hshort hc
    exact Prod.ext hread rfl
  rw [get, FileTree.run_bind_eq hread]
  rfl

end Store

end Statuary
