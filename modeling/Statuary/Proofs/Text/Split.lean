import Mathlib.Data.List.Basic
import Statuary.Text.Search

/-!
# Cutting texts

A text is cut at a character into its pieces (`Statuary.cutAt`), and **texts that do not hold the
character are the pieces of what they are joined to** (`Statuary.cutAt_intercalate`). So a path is
cut into names, a command into words and a file into lines, and what was joined is found again.

A text that has a given beginning and a given ending is taken out of them (`Statuary.between?`).
-/

namespace Statuary

/-! ### Characters -/

theorem splitOnChar_ne_nil (sep : Char) (cs : List Char) : splitOnChar sep cs ≠ [] := by
  cases cs with
  | nil => simp [splitOnChar]
  | cons c cs =>
    rw [splitOnChar]
    split_ifs
    · simp
    · split <;> simp

theorem splitOnChar_append (sep : Char) (cs ds : List Char) :
    splitOnChar sep (cs ++ sep :: ds) = splitOnChar sep cs ++ splitOnChar sep ds := by
  induction cs with
  | nil => simp [splitOnChar]
  | cons c cs ih =>
    rw [List.cons_append, splitOnChar, splitOnChar]
    split_ifs with hc
    · rw [ih, List.cons_append]
    · rw [ih]
      cases h : splitOnChar sep cs with
      | nil => exact absurd h (splitOnChar_ne_nil sep cs)
      | cons p ps => rfl

theorem notMem_of_mem_splitOnChar {sep : Char} {cs p : List Char} (h : p ∈ splitOnChar sep cs) :
    sep ∉ p := by
  induction cs generalizing p with
  | nil =>
    rw [List.mem_singleton.mp h]
    exact List.not_mem_nil
  | cons c cs ih =>
    rw [splitOnChar] at h
    split_ifs at h with hc
    · rcases List.mem_cons.mp h with rfl | h
      · exact List.not_mem_nil
      · exact ih h
    · cases hs : splitOnChar sep cs with
      | nil => exact absurd hs (splitOnChar_ne_nil sep cs)
      | cons q qs =>
        rw [hs] at h ih
        rcases List.mem_cons.mp h with rfl | h
        · intro hmem
          rcases List.mem_cons.mp hmem with rfl | hmem
          · exact hc rfl
          · exact ih (List.mem_cons_self ..) hmem
        · exact ih (List.mem_cons_of_mem _ h)

theorem splitOnChar_of_notMem {sep : Char} {cs : List Char} (h : sep ∉ cs) :
    splitOnChar sep cs = [cs] := by
  induction cs with
  | nil => rfl
  | cons c cs ih =>
    obtain ⟨hne, hcs⟩ := List.ne_and_not_mem_of_not_mem_cons h
    rw [splitOnChar, if_neg (Ne.symm hne), ih hcs]

theorem intercalate_splitOnChar (sep : Char) (cs : List Char) :
    [sep].intercalate (splitOnChar sep cs) = cs := by
  induction cs with
  | nil => rfl
  | cons c cs ih =>
    rw [splitOnChar]
    cases h : splitOnChar sep cs with
    | nil => exact absurd h (splitOnChar_ne_nil sep cs)
    | cons p ps =>
      rw [h] at ih
      split_ifs with hc
      · rw [List.intercalate_cons_cons, ih, hc]
        rfl
      · cases ps with
        | nil =>
          rw [List.intercalate_singleton] at ih ⊢
          rw [ih]
        | cons q ps =>
          rw [List.intercalate_cons_cons] at ih ⊢
          rw [List.cons_append, List.cons_append, ih]

theorem append_of_splitAtFirst {pat cs before after : List Char}
    (h : splitAtFirst pat cs = some (before, after)) : cs = before ++ pat ++ after := by
  induction cs generalizing before with
  | nil =>
    rw [splitAtFirst] at h
    split_ifs at h with hpat
    cases h
    rw [List.isEmpty_iff.mp hpat]
    rfl
  | cons c cs ih =>
    rw [splitAtFirst] at h
    split at h
    · rename_i hlead
      cases h
      exact dropLead?_eq_some hlead
    · obtain ⟨⟨b, a⟩, hsplit, he⟩ := Option.map_eq_some_iff.mp h
      cases he
      rw [ih hsplit]
      rfl

theorem dropLead?_append (p r : List Char) : dropLead? p (p ++ r) = some r := by
  induction p with
  | nil => rfl
  | cons c p ih => rw [List.cons_append, dropLead?, if_pos rfl, ih]

theorem isSome_dropLead?_iff {p cs : List Char} : (dropLead? p cs).isSome = true ↔ p <+: cs := by
  constructor
  · intro h
    obtain ⟨r, hr⟩ := Option.isSome_iff_exists.mp h
    exact ⟨r, (dropLead?_eq_some hr).symm⟩
  · rintro ⟨r, rfl⟩
    rw [dropLead?_append]
    rfl

/-- A text is found where it stands, or before. -/
theorem isSome_splitAtFirst (x pat y : List Char) :
    (splitAtFirst pat (x ++ (pat ++ y))).isSome = true := by
  induction x with
  | nil =>
    rw [List.nil_append]
    have hlead := dropLead?_append pat y
    cases htext : pat ++ y with
    | nil =>
      obtain ⟨rfl, -⟩ := List.append_eq_nil_iff.mp htext
      rfl
    | cons c cs =>
      rw [splitAtFirst, ← htext, hlead]
      rfl
  | cons c x ih =>
    rw [List.cons_append, splitAtFirst]
    cases dropLead? pat (c :: (x ++ (pat ++ y))) with
    | some rest => rfl
    | none => rwa [Option.isSome_map]

/-- Joining adds no character but those of the separator. -/
theorem any_intercalate {p : Char → Bool} {sep : List Char} (hsep : sep.any p = false)
    (xs : List (List Char)) : (sep.intercalate xs).any p = xs.any (·.any p) := by
  induction xs with
  | nil => rfl
  | cons x xs ih =>
    cases xs with
    | nil => rw [List.intercalate_singleton, List.any_cons, List.any_nil, Bool.or_false]
    | cons y ys =>
      rw [List.intercalate_cons_cons, List.any_append, List.any_append, hsep, Bool.or_false, ih]
      rfl

theorem notMem_intercalate {c : Char} {sep : List Char} (hsep : c ∉ sep) {xs : List (List Char)}
    (h : ∀ x ∈ xs, c ∉ x) : c ∉ sep.intercalate xs := by
  have hany : ∀ cs : List Char, cs.any (· == c) = false ↔ c ∉ cs := fun cs => by
    simp only [List.any_eq_false, beq_iff_eq]
    exact ⟨fun hne hmem => hne c hmem rfl, fun hmem d hd he => hmem (he ▸ hd)⟩
  rw [← hany, any_intercalate ((hany sep).mpr hsep), List.any_eq_false]
  intro x hx
  rw [(hany x).mpr (h x hx)]
  exact Bool.false_ne_true

/-! ### Texts -/

/-- The pieces of a text between the occurrences of a character. -/
def cutAt (sep : Char) (s : String) : List String :=
  (splitOnChar sep s.toList).map String.ofList

theorem cutAt_injective {sep : Char} {a b : String} (h : cutAt sep a = cutAt sep b) :
    a = b := by
  have hmap : Function.Injective String.ofList := fun cs ds hcs => by
    have h := congrArg String.toList hcs
    rwa [String.toList_ofList, String.toList_ofList] at h
  have hsplit : splitOnChar sep a.toList = splitOnChar sep b.toList :=
    List.map_injective_iff.mpr hmap h
  rw [← String.toList_inj, ← intercalate_splitOnChar sep a.toList, hsplit,
    intercalate_splitOnChar]

theorem cutAt_append (sep : Char) (a b : String) :
    cutAt sep (a ++ String.singleton sep ++ b) = cutAt sep a ++ cutAt sep b := by
  rw [cutAt, String.toList_append, String.toList_append, List.append_assoc,
    String.toList_singleton, List.singleton_append, splitOnChar_append, List.map_append]
  rfl

theorem cutAt_of_notMem {sep : Char} {s : String} (h : sep ∉ s.toList) : cutAt sep s = [s] := by
  rw [cutAt, splitOnChar_of_notMem h, List.map_singleton, String.ofList_toList]

theorem notMem_of_mem_cutAt {sep : Char} {p s : String} (h : s ∈ cutAt sep p) :
    sep ∉ s.toList := by
  obtain ⟨cs, hcs, rfl⟩ := List.mem_map.mp h
  rw [String.toList_ofList]
  exact notMem_of_mem_splitOnChar hcs

/-- Joined texts are found again. -/
theorem cutAt_intercalate {sep : Char} {texts : List String} (hne : texts ≠ [])
    (h : ∀ s ∈ texts, sep ∉ s.toList) :
    cutAt sep ((String.singleton sep).intercalate texts) = texts := by
  induction texts with
  | nil => exact absurd rfl hne
  | cons s texts ih =>
    obtain ⟨hs, htexts⟩ := List.forall_mem_cons.mp h
    cases texts with
    | nil => rw [String.intercalate_singleton, cutAt_of_notMem hs]
    | cons t texts =>
      rw [String.intercalate_cons_cons, cutAt_append, cutAt_of_notMem hs,
        ih (List.cons_ne_nil _ _) htexts, List.singleton_append]

/-- Texts that each end in the character are found again, and nothing after them. -/
theorem cutAt_join {sep : Char} {texts : List String} (h : ∀ s ∈ texts, sep ∉ s.toList) :
    cutAt sep (String.join (texts.map (· ++ String.singleton sep))) = texts ++ [""] := by
  induction texts with
  | nil => rfl
  | cons s texts ih =>
    obtain ⟨hs, htexts⟩ := List.forall_mem_cons.mp h
    rw [List.map_cons, String.join_cons, cutAt_append, cutAt_of_notMem hs, ih htexts,
      List.singleton_append, List.cons_append]

/-! ### Texts between signs -/

/-- What stands between a beginning and an ending of a text. -/
def between? (lead trail s : String) : Option String :=
  (dropLead? lead.toList s.toList).bind fun rest =>
    (dropLead? trail.toList.reverse rest.reverse).map fun inner => String.ofList inner.reverse

theorem between?_append (lead inner trail : String) :
    between? lead trail (lead ++ inner ++ trail) = some inner := by
  have hlead : dropLead? lead.toList (lead ++ inner ++ trail).toList =
      some (inner.toList ++ trail.toList) := by
    rw [String.toList_append, String.toList_append, List.append_assoc, dropLead?_append]
  rw [between?, hlead, Option.bind_some, List.reverse_append, dropLead?_append, Option.map_some,
    List.reverse_reverse, String.ofList_toList]

theorem between?_eq_some_iff {lead trail s inner : String} :
    between? lead trail s = some inner ↔ s = lead ++ inner ++ trail := by
  constructor
  · intro h
    obtain ⟨rest, hrest, h⟩ := Option.bind_eq_some_iff.mp h
    obtain ⟨back, hback, rfl⟩ := Option.map_eq_some_iff.mp h
    have hrest := dropLead?_eq_some hrest
    have hback := congrArg List.reverse (dropLead?_eq_some hback)
    rw [List.reverse_append, List.reverse_reverse, List.reverse_reverse] at hback
    apply String.toList_inj.mp
    rw [hrest, hback, String.toList_append, String.toList_append, String.toList_ofList,
      List.append_assoc]
  · rintro rfl
    exact between?_append lead inner trail

theorem between?_eq_none {lead trail s : String}
    (h : ¬ (lead.toList <+: s.toList ∧ trail.toList <:+ s.toList)) :
    between? lead trail s = none := by
  rw [Option.eq_none_iff_forall_ne_some]
  intro inner hinner
  rw [between?_eq_some_iff] at hinner
  refine h ⟨?_, ?_⟩
  · rw [hinner, String.append_assoc, String.toList_append]
    exact List.prefix_append ..
  · rw [hinner, String.toList_append]
    exact List.suffix_append ..

/-- A text does not begin in two ways. -/
theorem between?_of_ne {lead s : String} {c d : Char} (hlead : lead.toList.head? = some c)
    (hs : s.toList.head? = some d) (hne : c ≠ d) (trail : String) :
    between? lead trail s = none := by
  refine between?_eq_none fun ⟨⟨rest, hrest⟩, _⟩ => hne (Option.some_inj.mp ?_)
  have hhead := congrArg List.head? hrest
  rwa [List.head?_append, hlead, hs, Option.some_or] at hhead

end Statuary
