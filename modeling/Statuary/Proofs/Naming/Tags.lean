import Mathlib.Data.List.Basic
import Mathlib.Logic.Function.Basic
import Mathlib.Tactic.Tauto
import Statuary.Naming.Identifier
import Statuary.Naming.Scheme
import Statuary.Tag.Scalar

/-!
# What names are made of

The names in a command stand there without quotes, between blanks, commas and brackets, so it
matters of which characters they are made (`Statuary.IsToken`). And commands find a bone by its tag,
so it matters that no two bones have one.

For tags both come from one fact: **a template with one key is its pieces with the value between
them**, and the pieces do not depend on the value (`Statuary.Template.exists_pieces`). So nothing is
in a tag but what is in its template and in the name filled in (`Statuary.isToken_format`), and a
template with two pieces at least makes a tag that tells the name
(`Statuary.Template.format_injective`).
-/

namespace Statuary

/-! ### Tokens -/

/-- A character of names in commands. -/
def isTokenChar (c : Char) : Bool :=
  isBareChar c || c == '%' || c == ':' || c == '/' || c == '#'

/-- A text that stands for itself in a command. -/
def IsToken (s : String) : Prop :=
  ∀ c ∈ s.toList, isTokenChar c = true

theorem isTokenChar_of_isBareChar {c : Char} (h : isBareChar c = true) : isTokenChar c = true := by
  simp [isTokenChar, h]

theorem IsToken.notMem {s : String} (h : IsToken s) {c : Char} (hc : isTokenChar c = false) :
    c ∉ s.toList := by
  intro hmem
  rw [h c hmem] at hc
  cases hc

theorem IsToken.append {s t : String} (hs : IsToken s) (ht : IsToken t) : IsToken (s ++ t) := by
  intro c hc
  rw [String.toList_append, List.mem_append] at hc
  exact hc.elim (hs c) (ht c)

/-! ### Templates with one key -/

namespace Template

theorem longestKey_singleton (key value : String) (cs : List Char) :
    longestKey [(key, value)] cs =
      if (dropLead? key.toList cs).isSome then some (key, value) else none := by
  rw [longestKey, List.filter_cons]
  split_ifs <;> rfl

/-- The pieces do not depend on the value, and nothing is in them but what is in the text. -/
theorem exists_pieces_fill (key : String) (skip : ℕ) (cs : List Char) :
    ∃ pieces : List (List Char), pieces ≠ [] ∧ (∀ p ∈ pieces, p ⊆ cs) ∧
      ∀ value : String, fill [(key, value)] skip cs = value.toList.intercalate pieces := by
  induction cs generalizing skip with
  | nil =>
    refine ⟨[[]], List.cons_ne_nil _ _, fun p hp => ?_, fun value => ?_⟩
    · exact List.mem_singleton.mp hp ▸ List.Subset.refl _
    · rw [fill, List.intercalate_singleton]
  | cons c cs ih =>
    have hmore : ∀ {ps : List (List Char)}, (∀ p ∈ ps, p ⊆ cs) → ∀ p ∈ ps, p ⊆ c :: cs :=
      fun h p hp => List.subset_cons_of_subset _ (h p hp)
    have hkeep : ∃ pieces : List (List Char), pieces ≠ [] ∧ (∀ p ∈ pieces, p ⊆ c :: cs) ∧
        ∀ value : String, c :: fill [(key, value)] 0 cs = value.toList.intercalate pieces := by
      obtain ⟨pieces, hne, hsub, hfill⟩ := ih 0
      obtain ⟨p, ps, rfl⟩ := List.exists_cons_of_ne_nil hne
      obtain ⟨hp, hps⟩ := List.forall_mem_cons.mp hsub
      refine ⟨(c :: p) :: ps, List.cons_ne_nil _ _,
        List.forall_mem_cons.mpr ⟨List.cons_subset_cons _ hp, hmore hps⟩, fun value => ?_⟩
      rw [hfill]
      cases ps <;> simp [List.intercalate_cons_cons]
    cases skip with
    | succ skip =>
      obtain ⟨pieces, hne, hsub, hfill⟩ := ih skip
      exact ⟨pieces, hne, hmore hsub, fun value => by rw [fill, hfill]⟩
    | zero =>
      by_cases hc : c = '%' ∧ (dropLead? key.toList cs).isSome = true
      · obtain ⟨pieces, hne, hsub, hfill⟩ := ih key.length
        obtain ⟨p, ps, rfl⟩ := List.exists_cons_of_ne_nil hne
        refine ⟨[] :: p :: ps, List.cons_ne_nil _ _,
          List.forall_mem_cons.mpr ⟨List.nil_subset _, hmore hsub⟩, fun value => ?_⟩
        rw [fill, if_pos hc.1, longestKey_singleton, if_pos hc.2]
        dsimp only
        rw [hfill, List.intercalate_cons_cons, List.nil_append]
      · obtain ⟨pieces, hne, hsub, hfill⟩ := hkeep
        refine ⟨pieces, hne, hsub, fun value => ?_⟩
        rw [← hfill, fill]
        split_ifs with hpercent
        · rw [longestKey_singleton, if_neg fun hkey => hc ⟨hpercent, hkey⟩]
        · rfl

/-- **A template with one key is its pieces with the value between them.** -/
theorem exists_pieces (template key : String) :
    ∃ pieces : List (List Char), pieces ≠ [] ∧ (∀ p ∈ pieces, p ⊆ template.toList) ∧
      ∀ value : String,
        (format template [(key, value)]).toList = value.toList.intercalate pieces := by
  obtain ⟨pieces, hne, hsub, hfill⟩ := exists_pieces_fill key 0 template.toList
  refine ⟨pieces, hne, hsub, fun value => ?_⟩
  rw [format, String.toList_ofList, hfill]

theorem mem_of_mem_intercalate {c : Char} {sep : List Char} {pieces : List (List Char)}
    (h : c ∈ sep.intercalate pieces) : c ∈ sep ∨ ∃ p ∈ pieces, c ∈ p := by
  induction pieces with
  | nil => exact absurd h List.not_mem_nil
  | cons p ps ih =>
    cases ps with
    | nil =>
      rw [List.intercalate_singleton] at h
      exact .inr ⟨p, List.mem_singleton_self p, h⟩
    | cons q qs =>
      rw [List.intercalate_cons_cons, List.append_assoc, List.mem_append, List.mem_append] at h
      rcases h with h | h | h
      · exact .inr ⟨p, List.mem_cons_self .., h⟩
      · exact .inl h
      · obtain hsep | ⟨r, hr, hc⟩ := ih h
        · exact .inl hsep
        · exact .inr ⟨r, List.mem_cons_of_mem _ hr, hc⟩

theorem length_intercalate (sep p : List Char) (ps : List (List Char)) :
    (sep.intercalate (p :: ps)).length = (p :: ps).flatten.length + ps.length * sep.length := by
  induction ps generalizing p with
  | nil => simp
  | cons q ps ih =>
    rw [List.intercalate_cons_cons, List.length_append, List.length_append, ih,
      List.flatten_cons (l := p), List.length_append, List.length_cons, Nat.succ_mul]
    omega

/-- Nothing is in a filled template but what is in the template and in the value. -/
theorem mem_format {template key value : String} {c : Char}
    (h : c ∈ (format template [(key, value)]).toList) :
    c ∈ template.toList ∨ c ∈ value.toList := by
  obtain ⟨pieces, -, hsub, hformat⟩ := exists_pieces template key
  rw [hformat] at h
  rcases mem_of_mem_intercalate h with hc | ⟨p, hp, hc⟩
  · exact .inr hc
  · exact .inl (hsub p hp hc)

/-- A text that depends on the value has a place for it. -/
theorem exists_pieces_of_ne {template key : String}
    (h : ∃ v w, format template [(key, v)] ≠ format template [(key, w)]) :
    ∃ (p q : List Char) (ps : List (List Char)), ∀ value : String,
      (format template [(key, value)]).toList = value.toList.intercalate (p :: q :: ps) := by
  obtain ⟨pieces, hne, -, hformat⟩ := exists_pieces template key
  obtain ⟨p, ps, rfl⟩ := List.exists_cons_of_ne_nil hne
  cases ps with
  | nil =>
    -- with one piece there is no place for a value
    obtain ⟨v, w, hvw⟩ := h
    refine absurd (String.toList_inj.mp ?_) hvw
    rw [hformat, hformat, List.intercalate_singleton, List.intercalate_singleton]
  | cons q ps => exact ⟨p, q, ps, hformat⟩

/-- **The value shows in the text** if it is in it at all. -/
theorem format_injective {template key : String}
    (h : ∃ v w, format template [(key, v)] ≠ format template [(key, w)]) :
    Function.Injective fun value => format template [(key, value)] := by
  obtain ⟨p, q, ps, hformat⟩ := exists_pieces_of_ne h
  intro v w hvw
  have htext : v.toList.intercalate (p :: q :: ps) = w.toList.intercalate (p :: q :: ps) := by
    rw [← hformat, ← hformat]
    exact congrArg String.toList hvw
  -- a longer value would make a longer text
  have hsize := congrArg List.length htext
  rw [length_intercalate, length_intercalate, List.length_cons] at hsize
  have hpos : 0 < ps.length + 1 := Nat.succ_pos _
  have hlen : v.toList.length = w.toList.length :=
    Nat.eq_of_mul_eq_mul_left hpos (Nat.add_left_cancel hsize)
  rw [List.intercalate_cons_cons, List.intercalate_cons_cons, List.append_assoc,
    List.append_assoc] at htext
  exact String.toList_inj.mp (List.append_inj (List.append_cancel_left htext) hlen).1

/-- The value is a part of the text if it is in it at all. -/
theorem infix_format {template key : String}
    (h : ∃ v w, format template [(key, v)] ≠ format template [(key, w)]) (value : String) :
    value.toList <:+: (format template [(key, value)]).toList := by
  obtain ⟨p, q, ps, hformat⟩ := exists_pieces_of_ne h
  rw [hformat, List.intercalate_cons_cons]
  exact ⟨p, _, rfl⟩

end Template

theorem isToken_format {template key value : String} (ht : IsToken template)
    (hv : IsToken value) : IsToken (Template.format template [(key, value)]) :=
  fun c hc => (Template.mem_format hc).elim (ht c) (hv c)

/-- The tag of a bone tells its name, if it does so for two bones. -/
theorem Tags.bone_injective {t : Tags} {a b : String} (h : t.bone a ≠ t.bone b) :
    Function.Injective t.bone :=
  Template.format_injective ⟨a, b, h⟩

/-! ### Identifiers -/

namespace Identifier

theorem isNameChar_of_mem_squeeze {c : Char} {cs : List (Option Char)} {underscore : Bool}
    (hcs : ∀ d, some d ∈ cs → isNameChar d = true) (h : c ∈ squeeze underscore cs) :
    isNameChar c = true := by
  induction cs generalizing underscore with
  | nil => exact absurd h List.not_mem_nil
  | cons o cs ih =>
    obtain ⟨ho, hcs⟩ := List.forall_mem_cons.mp (show ∀ e ∈ o :: cs, ∀ d, some d = e →
      isNameChar d = true from fun e he d hd => hcs d (hd ▸ he))
    have ih := fun b => @ih b fun d hd => hcs _ hd d rfl
    cases o with
    | some d =>
      rw [squeeze] at h
      rcases List.mem_cons.mp h with rfl | h
      · exact ho _ rfl
      · exact ih _ h
    | none =>
      rw [squeeze] at h
      split_ifs at h
      · exact ih _ h
      · rcases List.mem_cons.mp h with rfl | h
        · rfl
        · exact ih _ h

/-- An identifier is not empty. -/
theorem ofText_ne_empty (s : String) : ofText s ≠ "" := by
  rw [ofText]
  split
  · decide
  · rename_i hne
    exact fun h => hne (String.ofList_eq_empty_iff.mp h)

/-- An identifier is made of the characters of identifiers. -/
theorem isNameChar_of_mem_ofText {c : Char} {s : String} (h : c ∈ (ofText s).toList) :
    isNameChar c = true := by
  have husable : ∀ d, some d ∈ usable s.toList → isNameChar d = true := by
    intro d hd
    obtain ⟨a, -, ha⟩ := List.mem_filterMap.mp hd
    split at ha
    · cases ha
    · split_ifs at ha with hname
      · rwa [← Option.some.inj (Option.some.inj ha)]
      · cases ha
    · cases ha
  rw [ofText] at h
  split at h
  · exact List.all_eq_true.mp (show "unnamed".toList.all isNameChar = true from rfl) c h
  · rw [String.toList_ofList, stripUnderscores, dropEnd, List.mem_reverse] at h
    have hmem := (List.dropWhile_sublist _).subset h
    rw [List.mem_reverse] at hmem
    exact isNameChar_of_mem_squeeze husable ((List.dropWhile_sublist _).subset hmem)

end Identifier

theorem isBareChar_of_isNameChar {c : Char} (h : isNameChar c = true) : isBareChar c = true := by
  simp only [isNameChar, isBareChar, Bool.or_eq_true] at h ⊢
  tauto

/-- An identifier stands for itself in a command. -/
theorem isToken_ofText (s : String) : IsToken (Identifier.ofText s) := fun _ hc =>
  isTokenChar_of_isBareChar (isBareChar_of_isNameChar (Identifier.isNameChar_of_mem_ofText hc))

end Statuary
