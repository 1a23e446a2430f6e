import Statuary.Proofs.Naming.Tags
import Statuary.Proofs.Text.Split

/-!
# Percent signs in templates

The tag of a bone is made by filling in a template **twice**: the project first, and then the name
of the bone. Two questions arise. Does the first pass leave the place of the name where it is? And
what is left of the percent signs in the end, which are for places only?

Both are answered by one fact: **a percent sign starts afresh**
(`Statuary.Template.fill_append_percent`). No key has a percent sign in it, so no place reaches
over the next one, and a template is filled in before and from a percent sign on separately. Hence

* a text in which the place of a key occurs shows the value (`Statuary.Template.infix_format`,
  `Statuary.Template.format_injective`), and filling in another key leaves that place there
  (`Statuary.Template.contains_format`);
* a percent sign is left exactly if one stands before something else than the key
  (`Statuary.Template.percent_mem_format_iff`).
-/

namespace Statuary

/-- A text contains another one exactly if that is a part of it. -/
theorem contains_iff_infix {pat s : String} :
    contains pat s = true ↔ pat.toList <:+: s.toList := by
  rw [contains, Option.isSome_iff_exists]
  constructor
  · rintro ⟨⟨before, after⟩, h⟩
    exact ⟨before, after, (append_of_splitAtFirst h).symm⟩
  · rintro ⟨before, after, h⟩
    rw [← Option.isSome_iff_exists, ← h, List.append_assoc]
    exact isSome_splitAtFirst before pat.toList after

namespace Template

variable {bindings : Bindings} {key value : String}

/-! ### Filling in a part of a template -/

/-- The characters that are skipped could as well not be there. -/
theorem fill_drop (skip : ℕ) (cs : List Char) :
    fill bindings skip cs = fill bindings 0 (cs.drop skip) := by
  induction cs generalizing skip with
  | nil => rw [List.drop_nil, fill, fill]
  | cons c cs ih =>
    cases skip with
    | zero => rfl
    | succ skip => rw [fill, ih, List.drop_succ_cons]

/-- Without percent signs there is nothing to fill in. -/
theorem fill_of_notMem {cs : List Char} (h : '%' ∉ cs) (ds : List Char) :
    fill bindings 0 (cs ++ ds) = cs ++ fill bindings 0 ds := by
  induction cs with
  | nil => rfl
  | cons c cs ih =>
    obtain ⟨hc, hcs⟩ := List.ne_and_not_mem_of_not_mem_cons h
    rw [List.cons_append, fill, if_neg (Ne.symm hc), ih hcs, List.cons_append]

/-- No key reaches over a percent sign. -/
theorem isSome_dropLead?_percent {p : List Char} (hp : '%' ∉ p) (cs ds : List Char) :
    (dropLead? p (cs ++ '%' :: ds)).isSome = (dropLead? p cs).isSome := by
  induction p generalizing cs with
  | nil => rfl
  | cons a p ih =>
    obtain ⟨ha, hp⟩ := List.ne_and_not_mem_of_not_mem_cons hp
    cases cs with
    | nil =>
      change (if a = '%' then dropLead? p ds else none).isSome = false
      rw [if_neg (Ne.symm ha), Option.isSome_none]
    | cons c cs =>
      rw [List.cons_append, dropLead?, dropLead?]
      split_ifs
      · exact ih hp cs
      · rfl

theorem length_le_of_dropLead? {p cs : List Char} (h : (dropLead? p cs).isSome = true) :
    p.length ≤ cs.length := by
  obtain ⟨r, hr⟩ := Option.isSome_iff_exists.mp h
  rw [dropLead?_eq_some hr, List.length_append]
  exact Nat.le_add_right _ _

/-- **A percent sign starts afresh.** -/
theorem fill_append_percent (hkey : '%' ∉ key.toList) {skip : ℕ} {cs : List Char}
    (hskip : skip ≤ cs.length) (ds : List Char) :
    fill [(key, value)] skip (cs ++ '%' :: ds) =
      fill [(key, value)] skip cs ++ fill [(key, value)] 0 ('%' :: ds) := by
  induction cs generalizing skip with
  | nil =>
    obtain rfl := Nat.eq_zero_of_le_zero hskip
    rfl
  | cons c cs ih =>
    cases skip with
    | succ skip => exact ih (Nat.le_of_succ_le_succ hskip)
    | zero =>
      rw [List.cons_append, fill, fill, longestKey_singleton, longestKey_singleton,
        isSome_dropLead?_percent hkey]
      split_ifs with hc hlead
      · have hlen : key.length ≤ cs.length := length_le_of_dropLead? hlead
        dsimp only
        rw [ih hlen, List.append_assoc]
      · rw [ih (Nat.zero_le _), List.cons_append]
      · rw [ih (Nat.zero_le _), List.cons_append]

/-- The place of the key becomes the value. -/
theorem fill_key (ds : List Char) :
    fill [(key, value)] 0 ('%' :: (key.toList ++ ds)) =
      value.toList ++ fill [(key, value)] 0 ds := by
  rw [fill, if_pos rfl, longestKey_singleton, dropLead?_append, Option.isSome_some, if_pos rfl]
  dsimp only
  rw [fill_drop, show key.length = key.toList.length from rfl, List.drop_left]

/-- The place of another key stays. -/
theorem fill_other {other : String} (hother : '%' ∉ other.toList) {ds : List Char}
    (h : dropLead? key.toList (other.toList ++ ds) = none) :
    fill [(key, value)] 0 ('%' :: (other.toList ++ ds)) =
      '%' :: (other.toList ++ fill [(key, value)] 0 ds) := by
  rw [fill, if_pos rfl, longestKey_singleton, h]
  exact congrArg _ (fill_of_notMem hother ds)

/-! ### What is seen in a filled template -/

variable {template : String}

theorem toList_place (key : String) : ("%" ++ key).toList = '%' :: key.toList := by
  rw [String.toList_append]
  rfl

/-- A template with a place shows the value. -/
theorem infix_format_of_contains (hkey : '%' ∉ key.toList)
    (h : contains ("%" ++ key) template = true) (value : String) :
    value.toList <:+: (format template [(key, value)]).toList := by
  obtain ⟨before, after, h⟩ := contains_iff_infix.mp h
  rw [toList_place, List.append_assoc, List.cons_append] at h
  rw [format, String.toList_ofList, ← h, fill_append_percent hkey (Nat.zero_le _), fill_key,
    ← List.append_assoc]
  exact List.infix_append ..

/-- **A template with a place depends on the value.** -/
theorem exists_format_ne (hkey : '%' ∉ key.toList)
    (h : contains ("%" ++ key) template = true) :
    ∃ v w, format template [(key, v)] ≠ format template [(key, w)] := by
  by_contra hsame
  simp only [not_exists, not_not] at hsame
  -- a value that is longer than what the empty one gives
  obtain ⟨n, hn⟩ : ∃ n, (format template [(key, "")]).toList.length = n := ⟨_, rfl⟩
  have hlen := (infix_format_of_contains hkey h
    (String.ofList (List.replicate (n + 1) 'x'))).length_le
  rw [hsame _ "", hn, String.toList_ofList, List.length_replicate] at hlen
  exact absurd hlen (Nat.not_succ_le_self n)

/-- **Filling in a key leaves the places of another.** -/
theorem contains_format {other : String} (hkey : '%' ∉ key.toList) (hother : '%' ∉ other.toList)
    (hne : ∀ ds, dropLead? key.toList (other.toList ++ ds) = none)
    (h : contains ("%" ++ other) template = true) (value : String) :
    contains ("%" ++ other) (format template [(key, value)]) = true := by
  obtain ⟨before, after, h⟩ := contains_iff_infix.mp h
  rw [toList_place, List.append_assoc, List.cons_append] at h
  refine contains_iff_infix.mpr
    ⟨fill [(key, value)] 0 before, fill [(key, value)] 0 after, ?_⟩
  rw [format, String.toList_ofList, ← h, fill_append_percent hkey (Nat.zero_le _),
    fill_other hother (hne after), toList_place, List.append_assoc, List.cons_append]

/-- Neither a template nor a value that is not empty gives an empty text. -/
theorem format_ne_empty (ht : template ≠ "") (hv : value ≠ "") :
    format template [(key, value)] ≠ "" := by
  have hv : value.toList ≠ [] := fun h => hv (String.toList_eq_nil_iff.mp h)
  rw [format, Ne, String.ofList_eq_empty_iff]
  cases hcs : template.toList with
  | nil => exact absurd (String.toList_eq_nil_iff.mp hcs) ht
  | cons c cs =>
    rw [fill, longestKey_singleton]
    split_ifs
    · exact List.append_ne_nil_of_left_ne_nil hv _
    · exact not_false
    · exact not_false

/-! ### Percent signs that are left -/

/-- **Every percent sign in a text stands before the key.** -/
def bound (key : String) : List Char → Bool
  | [] => true
  | c :: cs => (c != '%' || (dropLead? key.toList cs).isSome) && bound key cs

theorem bound_append {cs : List Char} (hcs : '%' ∉ cs) (ds : List Char) :
    bound key (cs ++ ds) = bound key ds := by
  induction cs with
  | nil => rfl
  | cons c cs ih =>
    obtain ⟨hc, hcs⟩ := List.ne_and_not_mem_of_not_mem_cons hcs
    rw [List.cons_append, bound, ih hcs, bne_iff_ne.mpr (Ne.symm hc), Bool.true_or, Bool.true_and]

theorem percent_mem_fill_iff (hkey : '%' ∉ key.toList) (hvalue : '%' ∉ value.toList) (skip : ℕ)
    (cs : List Char) :
    '%' ∉ fill [(key, value)] skip cs ↔ bound key (cs.drop skip) = true := by
  induction cs generalizing skip with
  | nil =>
    rw [fill, List.drop_nil]
    exact iff_of_true List.not_mem_nil rfl
  | cons c cs ih =>
    cases skip with
    | succ skip => rw [fill, List.drop_succ_cons, ih]
    | zero =>
      rw [List.drop_zero, bound, fill, longestKey_singleton]
      split_ifs with hc hlead
      · -- the key is followed by what is filled in next
        obtain ⟨rest, hrest⟩ := Option.isSome_iff_exists.mp hlead
        have hcs := dropLead?_eq_some hrest
        dsimp only
        rw [List.mem_append, not_or, ih, hlead, hcs, bound_append hkey,
          show key.length = key.toList.length from rfl, List.drop_left]
        simp [hvalue]
      · simp [hc, hlead]
      · have ih := ih 0
        rw [List.drop_zero] at ih
        simp [hc, Ne.symm hc, ih]

/-- **No percent sign is left exactly if each stands before the key.** -/
theorem percent_mem_format_iff (hkey : '%' ∉ key.toList) (hvalue : '%' ∉ value.toList) :
    '%' ∉ (format template [(key, value)]).toList ↔ bound key template.toList = true := by
  rw [format, String.toList_ofList, percent_mem_fill_iff hkey hvalue, List.drop_zero]

end Template

end Statuary
