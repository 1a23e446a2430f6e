import Mathlib.Data.List.TakeDrop
import Statuary.History.Archive
import Statuary.Proofs.Json.Plain

/-!
# An archived text comes out of its envelope

The header of an archived text is one line, for no character of it is a line feed, and whatever
stands behind the first line feed is the text. **Any text** can be put behind a header of plain
values, and both come back (`Statuary.Archive.openEnvelope_envelope`).
-/

namespace Statuary.Archive

open Json

/-- The members of a header and what they are read as. -/
def headerMembers (h : ArchiveHeader) : List (String × String × Json) :=
  [("version", "1", .number "1"), ("id", ofText h.id, .string h.id),
    ("project", ofText h.project, .string h.project),
    ("created_at", ofText h.createdAt, .string h.createdAt)]

/-- **A header of plain values**, in the version of the format. -/
structure IsPlainHeader (h : ArchiveHeader) : Prop where
  version : h.version = version
  id : IsPlainText h.id
  project : IsPlainText h.project
  createdAt : IsPlainText h.createdAt

variable {h : ArchiveHeader}

theorem headerJson_eq (hversion : h.version = version) :
    headerJson h = ofMembers (memberTexts (headerMembers h)) := by
  rw [headerJson, hversion]
  rfl

theorem isRead_one : IsRead .alone "1" (.number "1") where
  head := ⟨'1', [], rfl, rfl⟩
  read fuel c rest hc := by
    rcases hc with rfl | rfl <;> rfl
  shallow depth most rest := by
    have hlist : "1".toList ++ rest = '1' :: rest := rfl
    rw [hlist, deepest.eq_def]
    simp

theorem headerMembers_isRead (hh : IsPlainHeader h) :
    ∀ m ∈ headerMembers h, IsPlainText m.1 ∧ IsRead .alone m.2.1 m.2.2 := by
  simp only [headerMembers, List.forall_mem_cons]
  exact ⟨⟨by decide, isRead_one⟩, ⟨by decide, isRead_ofText hh.id⟩,
    ⟨by decide, isRead_ofText hh.project⟩, ⟨by decide, isRead_ofText hh.createdAt⟩,
    fun _ hm => absurd hm List.not_mem_nil⟩

/-- **A header is read back.** -/
theorem readHeader_headerJson (hh : IsPlainHeader h) : readHeader (headerJson h) = some h := by
  have hread : (readMessage? (ofMembers (memberTexts (headerMembers h)))).bind message? =
      some (memberValues (headerMembers h)) :=
    readMessage?_ofMembers (List.cons_ne_nil _ _) (headerMembers_isRead hh)
  rw [← headerJson_eq hh.version] at hread
  obtain ⟨v, hv, hms⟩ := Option.bind_eq_some_iff.mp hread
  -- each name finds its own member
  have hone : int? (.number "1") = some 1 := by
    rw [int?]
    decide
  have hversion : intField? "version" (memberValues (headerMembers h)) = some h.version := by
    simp +decide [intField?, field?, memberValues, headerMembers, hone, hh.version, version]
  have hid : textField? "id" (memberValues (headerMembers h)) = some h.id := by
    simp +decide [textField?, field?, memberValues, headerMembers, text?]
  have hproject : textField? "project" (memberValues (headerMembers h)) = some h.project := by
    simp +decide [textField?, field?, memberValues, headerMembers, text?]
  have hcreated : textField? "created_at" (memberValues (headerMembers h)) = some h.createdAt := by
    simp +decide [textField?, field?, memberValues, headerMembers, text?]
  rw [readHeader, hv]
  simp only [Option.bind_eq_bind, Option.bind_some, hms, hversion, hid, hproject, hcreated]
  rfl

/-- A header is one line. -/
theorem newline_notMem_headerJson (hh : IsPlainHeader h) : '\n' ∉ (headerJson h).toList := by
  rw [headerJson_eq hh.version]
  have htext : ∀ s, IsPlainText s → '\n' ∉ (ofText s).toList := by
    intro s hs
    rw [toList_ofText hs]
    have hmem : '\n' ∉ s.toList := fun hmem => absurd (hs _ hmem).1 (by decide)
    simp [hmem]
  refine notMem_ofMembers (by decide) ?_
  simp only [headerMembers, List.forall_mem_cons]
  exact ⟨⟨by decide, by decide⟩, ⟨by decide, htext _ hh.id⟩, ⟨by decide, htext _ hh.project⟩,
    ⟨by decide, htext _ hh.createdAt⟩, fun _ hm => absurd hm List.not_mem_nil⟩

/-- **A text comes back with its header**, whatever text it is. -/
theorem openEnvelope_envelope (hh : IsPlainHeader h) (text : String) :
    openEnvelope (envelope h text) = .ok (h, text) := by
  have hlist : (envelope h text).toList = (headerJson h).toList ++ '\n' :: text.toList := by
    rw [envelope, String.toList_append, String.toList_append, List.append_assoc]
    rfl
  have hspan : (envelope h text).toList.span (· ≠ '\n') =
      ((headerJson h).toList, '\n' :: text.toList) := by
    have hline : ∀ c ∈ (headerJson h).toList, decide (c ≠ '\n') = true := fun c hc =>
      decide_eq_true fun he => newline_notMem_headerJson hh (he ▸ hc)
    rw [hlist, List.span_eq_takeWhile_dropWhile, List.takeWhile_append_of_pos hline,
      List.dropWhile_append_of_pos hline]
    simp
  rw [openEnvelope, hspan]
  simp [readHeader_headerJson hh, hh.version]

end Statuary.Archive
