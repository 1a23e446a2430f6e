import Statuary.Proofs.Tag.Memory
import Statuary.Proofs.Tag.Substitution

/-!
# Equal trees have one text

Two trees are compared number by number and name by name, and two things do not count: the kind that
an **empty list** was made for, and the sign of a **zero**. If both are forgotten
(`Statuary.Tag.normal`), what is left to compare is plain equality: two trees are equal exactly if
nothing in the first is `nan` and both have the same normal form (`Statuary.Tag.same_iff`). So
equality of trees without `nan` is an equivalence, and a copy in memory, which is the same tree in
other places, equals its original.

The compact text shows the sign of a zero, but not the kind of an empty list. For well-formed trees
without negative zeros it is therefore a **canonical form**: one text for each class of equal trees,
and no text for two classes (`Statuary.Tag.same_hasCanonicalText`). That equal trees have one
text is an induction over the tree (`Statuary.Tag.write_normal`). The converse needs none: a text is
read as one tree only, which equals every well-formed tree that it is the text of.
-/

namespace Statuary

/-! ### Numbers -/

namespace Binary

variable {f : BinaryFormat}

/-- The number, a zero without its sign. -/
def normal (x : Binary f) : Binary f :=
  if x.isZero then zero false else x

theorem isZero_iff {x : Binary f} : x.isZero = true ↔ ∃ negative, x = zero negative := by
  constructor
  · intro h
    cases x with
    | finite negative m q hm =>
      obtain rfl : m = 0 := by simpa [isZero] using h
      -- a zero fills no precision, so it stands at the least exponent
      obtain rfl : q = f.minExp := hm.2.2.2.resolve_right (Nat.not_le.mpr (Nat.two_pow_pos _))
      exact ⟨negative, rfl⟩
    | _ => cases h
  · rintro ⟨negative, rfl⟩
    rfl

theorem isZero_normal (x : Binary f) : x.normal.isZero = x.isZero := by
  rw [normal]
  split_ifs with h
  · exact h.symm
  · rfl

/-- **Numbers are equal by value** if neither is `nan` and they differ at most in the sign of a
zero. -/
theorem same_iff (x y : Binary f) : x.same y = true ↔ x ≠ nan ∧ x.normal = y.normal := by
  have hnan : x.isNaN = false ↔ x ≠ nan := by cases x <;> simp [isNaN]
  rw [same, Bool.and_eq_true, Bool.not_eq_true', hnan, Bool.or_eq_true, beq_iff_eq,
    Bool.and_eq_true]
  refine and_congr_right fun _ => ⟨?_, fun h => ?_⟩
  · rintro (rfl | ⟨hx, hy⟩)
    · rfl
    · rw [normal, normal, if_pos hx, if_pos hy]
  · have hzero : x.isZero = y.isZero := by rw [← isZero_normal x, h, isZero_normal]
    rw [normal, normal, ← hzero] at h
    split_ifs at h with hx
    · exact .inr ⟨hx, hzero ▸ hx⟩
    · exact .inl h

theorem normal_eq_nan {x : Binary f} : x.normal = nan ↔ x = nan := by
  rw [normal]
  split_ifs with h
  · obtain ⟨negative, rfl⟩ := isZero_iff.mp h
    simp [zero]
  · rfl

/-- Only a negative zero is changed. -/
theorem normal_of_ne {x : Binary f} (h : x ≠ zero true) : x.normal = x := by
  rw [normal]
  split_ifs with hx
  · obtain ⟨negative, rfl⟩ := isZero_iff.mp hx
    cases negative with
    | true => exact absurd rfl h
    | false => rfl
  · rfl

end Binary

namespace Tag

/-! ### Numbers in a tree -/

/-- **A number occurs in a tree**, in either width. -/
def HasNumber (x : ∀ f, Binary f) (t : Tag) : Prop :=
  Occurs (.float (x _)) t ∨ Occurs (.double (x _)) t

/-- Something in the tree is the result of no operation. -/
abbrev HasNaN (t : Tag) : Prop :=
  t.HasNumber fun _ => .nan

/-- Some zero of the tree has a minus sign. -/
abbrev HasNegativeZero (t : Tag) : Prop :=
  t.HasNumber fun _ => .zero true

variable {x : ∀ f, Binary f}

@[simp]
theorem hasNumber_float {y : Single} : (float y).HasNumber x ↔ x _ = y := by
  constructor
  · rintro (h | h) <;> cases h
    rfl
  · rintro rfl
    exact .inl .here

@[simp]
theorem hasNumber_double {y : Double} : (double y).HasNumber x ↔ x _ = y := by
  constructor
  · rintro (h | h) <;> cases h
    rfl
  · rintro rfl
    exact .inr .here

@[simp]
theorem hasNumber_list {elem : Kind} {items : List Tag} :
    (list elem items).HasNumber x ↔ ∃ t ∈ items, t.HasNumber x := by
  constructor
  · rintro (h | h) <;> cases h with
    | item ht h => exact ⟨_, ht, by simp [HasNumber, h]⟩
  · rintro ⟨t, ht, h⟩
    exact h.imp (.item ht) (.item ht)

@[simp]
theorem hasNumber_compound {es : Entries} :
    (compound es).HasNumber x ↔ ∃ e ∈ es, e.2.HasNumber x := by
  constructor
  · rintro (h | h) <;> cases h with
    | entry he h => exact ⟨_, he, by simp [HasNumber, h]⟩
  · rintro ⟨e, he, h⟩
    exact h.imp (.entry he) (.entry he)

/-! ### Normal forms -/

mutual

/-- **The normal form of a tree**: nothing is said of the kind of an empty list and of the sign of a
zero. -/
def normal : Tag → Tag
  | .float x => .float x.normal
  | .double x => .double x.normal
  | .list elem items => .list (if items.isEmpty then .untyped else elem) (normalItems items)
  | .compound es => .compound (normalEntries es)
  | t => t

/-- The normal forms of the items of a list. -/
def normalItems : List Tag → List Tag
  | [] => []
  | t :: ts => normal t :: normalItems ts

/-- The normal forms of the values of a compound. -/
def normalEntries : Entries → Entries
  | [] => []
  | (k, t) :: es => (k, normal t) :: normalEntries es

end

theorem normalItems_eq_map (items : List Tag) : normalItems items = items.map normal := by
  induction items with
  | nil => rfl
  | cons t ts ih => rw [normalItems, ih, List.map_cons]

theorem normalEntries_eq_map (es : Entries) :
    normalEntries es = es.map fun e => (e.1, normal e.2) := by
  induction es with
  | nil => rfl
  | cons e es ih => rw [normalEntries, ih, List.map_cons]

/-- Lists are related member by member as their members are. -/
theorem forall₂_iff_map_eq {α β : Type} {R : α → α → Prop} {p : α → Prop} {g : α → β}
    {as bs : List α} (h : ∀ a ∈ as, ∀ b, R a b ↔ p a ∧ g a = g b) :
    List.Forall₂ R as bs ↔ (∀ a ∈ as, p a) ∧ as.map g = bs.map g := by
  induction as generalizing bs with
  | nil => simp [eq_comm]
  | cons a as ih =>
    obtain ⟨ha, has⟩ := List.forall_mem_cons.mp h
    cases bs with
    | nil => simp
    | cons b bs =>
      rw [List.forall₂_cons, ha, ih has, List.forall_mem_cons, List.map_cons, List.map_cons,
        List.cons.injEq]
      tauto

theorem hasNaN_normal (t : Tag) : t.normal.HasNaN ↔ t.HasNaN := by
  induction t using induct with
  | float x =>
    simp only [HasNaN, normal, hasNumber_float]
    rw [eq_comm, Binary.normal_eq_nan, eq_comm]
  | double x =>
    simp only [HasNaN, normal, hasNumber_double]
    rw [eq_comm, Binary.normal_eq_nan, eq_comm]
  | list elem items ih =>
    simp only [HasNaN, normal, hasNumber_list, normalItems_eq_map, List.mem_map,
      exists_exists_and_eq_and]
    exact exists_congr fun t => and_congr_right (ih t)
  | compound es ih =>
    simp only [HasNaN, normal, hasNumber_compound, normalEntries_eq_map, List.mem_map,
      exists_exists_and_eq_and]
    exact exists_congr fun e => and_congr_right (ih e)
  | _ => rfl

/-- **Two trees are equal** exactly if nothing in them is `nan` and they have one normal form. -/
theorem same_iff (t u : Tag) : t.same u = true ↔ ¬ t.HasNaN ∧ t.normal = u.normal := by
  induction t using induct generalizing u with
  | float x =>
    cases u with
    | float y =>
      simp only [same, Binary.same_iff, HasNaN, hasNumber_float, normal, float.injEq, ne_comm]
    | _ => simp [same, normal]
  | double x =>
    cases u with
    | double y =>
      simp only [same, Binary.same_iff, HasNaN, hasNumber_double, normal, double.injEq, ne_comm]
    | _ => simp [same, normal]
  | list elem items ih =>
    cases u with
    | list elem' items' =>
      rw [same, Bool.and_eq_true, sameItems_iff, forall₂_iff_map_eq ih, HasNaN, hasNumber_list,
        normal, normal, normalItems_eq_map, normalItems_eq_map]
      cases items with
      | nil => cases items' <;> simp
      | cons t ts =>
        cases items' with
        | nil => simp
        | cons u us => simp; tauto
    | _ => simp [same, normal]
  | compound es ih =>
    cases u with
    | compound fs =>
      have hentry : ∀ e ∈ es, ∀ f : String × Tag, (e.1 = f.1 ∧ e.2.same f.2 = true) ↔
          ¬ e.2.HasNaN ∧ (e.1, e.2.normal) = (f.1, f.2.normal) := by
        intro e he f
        rw [ih e he, Prod.mk.injEq]
        tauto
      rw [same, sameEntries_iff, forall₂_iff_map_eq hentry, HasNaN, hasNumber_compound, normal,
        normal, normalEntries_eq_map, normalEntries_eq_map]
      simp
    | _ => simp [same, normal]
  | _ =>
    cases u <;> simp [same, normal]
    all_goals rintro - (h | h) <;> cases h

theorem same_self {t : Tag} (h : ¬ t.HasNaN) : t.same t = true :=
  (same_iff t t).mpr ⟨h, rfl⟩

theorem same_symm {t u : Tag} (h : t.same u = true) : u.same t = true := by
  obtain ⟨hnan, hnormal⟩ := (same_iff t u).mp h
  refine (same_iff u t).mpr ⟨?_, hnormal.symm⟩
  rwa [← hasNaN_normal, ← hnormal, hasNaN_normal]

theorem same_trans {t u v : Tag} (htu : t.same u = true) (huv : u.same v = true) :
    t.same v = true := by
  obtain ⟨hnan, hnormal⟩ := (same_iff t u).mp htu
  exact (same_iff t v).mpr ⟨hnan, hnormal.trans ((same_iff u v).mp huv).2⟩

/-! ### The text of a normal form -/

theorem writeItems_normalItems {d : ℕ} {items : List Tag}
    (h : ∀ t ∈ items, ∀ rest, write .compact d t.normal rest = write .compact d t rest)
    (between before rest : List Char) :
    writeItems .compact d between before (normalItems items) rest =
      writeItems .compact d between before items rest := by
  induction items generalizing before with
  | nil => rfl
  | cons t ts ih =>
    obtain ⟨ht, hts⟩ := List.forall_mem_cons.mp h
    rw [normalItems, writeItems, writeItems, ih hts, ht]

theorem writeEntries_normalEntries {d : ℕ} {es : Entries}
    (h : ∀ e ∈ es, ∀ rest, write .compact d e.2.normal rest = write .compact d e.2 rest)
    (between before rest : List Char) :
    writeEntries .compact d between before (normalEntries es) rest =
      writeEntries .compact d between before es rest := by
  induction es generalizing before with
  | nil => rfl
  | cons e es ih =>
    obtain ⟨he, hes⟩ := List.forall_mem_cons.mp h
    rw [normalEntries, writeEntries, writeEntries, ih hes, he]

/-- **The compact text does not show what a normal form forgets**, negative zeros apart. -/
theorem write_normal {t : Tag} (h : ¬ t.HasNegativeZero) (d : ℕ) (rest : List Char) :
    write .compact d t.normal rest = write .compact d t rest := by
  induction t using induct generalizing d rest with
  | float x =>
    rw [HasNegativeZero, hasNumber_float] at h
    rw [normal, Binary.normal_of_ne (Ne.symm h)]
  | double x =>
    rw [HasNegativeZero, hasNumber_double] at h
    rw [normal, Binary.normal_of_ne (Ne.symm h)]
  | list elem items ih =>
    simp only [HasNegativeZero, hasNumber_list, not_exists, not_and] at h
    have hitems := writeItems_normalItems (d := d + 1) fun t ht => ih t ht (h t ht) (d + 1)
    have hempty : (normalItems items).isEmpty = items.isEmpty := by
      rw [normalItems_eq_map, List.isEmpty_map]
    simp only [normal, write, Layout.ofList, hitems, hempty]
  | compound es ih =>
    simp only [HasNegativeZero, hasNumber_compound, not_exists, not_and] at h
    have hentries := writeEntries_normalEntries (d := d + 1) fun e he => ih e he (h e he) (d + 1)
    have hempty : (normalEntries es).isEmpty = es.isEmpty := by
      rw [normalEntries_eq_map, List.isEmpty_map]
    simp only [normal, write, Layout.ofCompound, hentries, hempty]
  | _ => rfl

theorem render_eq_of_same {t u : Tag} (h : t.same u = true) (ht : ¬ t.HasNegativeZero)
    (hu : ¬ u.HasNegativeZero) : t.render .compact = u.render .compact := by
  rw [render, render, ← write_normal ht, ((same_iff t u).mp h).2, write_normal hu]

theorem same_of_render_eq {t u : Tag} (ht : t.isWellFormed = true) (hu : u.isWellFormed = true)
    (h : t.render .compact = u.render .compact) : t.same u = true := by
  obtain ⟨r, htr, hread⟩ := exists_parse_render_same ht
  obtain ⟨s, hus, hread'⟩ := exists_parse_render_same hu
  -- both are read from one text
  obtain rfl : r = s := Except.ok.inj ((hread .compact).symm.trans (h ▸ hread' .compact))
  exact same_trans htr (same_symm hus)

/-- **Equality of trees is equality of their normal forms**, where nothing is `nan`, so that it is
an equivalence there and a copy equals its original; and the **compact text is a canonical form** of
the well-formed trees without negative zeros. -/
theorem same_hasCanonicalText :
    (∀ t u : Tag, t.same u = true ↔ ¬ t.HasNaN ∧ t.normal = u.normal) ∧
    (∀ t : Tag, ¬ t.HasNaN → t.same t = true) ∧
    (∀ t u : Tag, t.same u = true → u.same t = true) ∧
    (∀ t u v : Tag, t.same u = true → u.same v = true → t.same v = true) ∧
    (∀ (m : Memory) (p : Memory.Part), m.Stored p → ¬ p.tag.HasNaN →
      ∃ m' q, Ends (m.clone p.word) (m', q.word) ∧ m'.Stored p ∧ m'.Stored q ∧
        p.places.Disjoint q.places ∧ p.tag.same q.tag = true) ∧
    ∀ t u : Tag, t.isWellFormed = true → u.isWellFormed = true → ¬ t.HasNegativeZero →
      ¬ u.HasNegativeZero → (t.same u = true ↔ t.render .compact = u.render .compact) := by
  refine ⟨same_iff, fun _ => same_self, fun _ _ => same_symm, fun _ _ _ => same_trans,
    fun m p hp hnan => ?_, fun t u ht hu htz huz => ?_⟩
  · obtain ⟨m', q, hends, hcopy⟩ := Memory.clone_spec hp fun _ _ => rfl
    refine ⟨m', q, hends, hp.of_isPrefix hcopy.more, hcopy.stored, fun x hxp hxq => ?_, ?_⟩
    · exact absurd (hp.lt_length x hxp) (Nat.not_lt.mpr (hcopy.fresh x hxq))
    · rw [hcopy.tag]
      exact same_self hnan
  · exact ⟨fun h => render_eq_of_same h htz huz, same_of_render_eq ht hu⟩

/-- A tree with an empty list made for a kind, a name that needs quotes, and a zero. -/
def withEmpty (elem : Kind) : Tag :=
  .compound [("a b", .list elem []), ("c", .list .double [.double (.zero false)])]

/-- Trees that differ in the kind of an empty list only, and a list in memory and its copy. -/
theorem same_hasCanonicalText_withEmpty :
    (withEmpty .int).same (withEmpty .int) = true ∧
    (withEmpty .string).same (withEmpty .int) = true ∧
    (withEmpty .int).same (withEmpty .untyped) = true ∧
    (∃ (m' : Memory) (q : Memory.Part),
      Ends (Memory.clone [.list .int [.leaf (.int 1)]] (.place 0)) (m', q.word) ∧
        (list .int [.int 1]).same q.tag = true) ∧
    (withEmpty .int).render .compact = (withEmpty .string).render .compact := by
  obtain ⟨-, hrefl, hsymm, htrans, hclone, htext⟩ := same_hasCanonicalText
  have hplain : ∀ {x : ∀ f, Binary f} {elem : Kind}, x .double ≠ .zero false →
      ¬ (withEmpty elem).HasNumber x := by
    intro x elem hx
    simpa [withEmpty] using hx
  have hlist : ¬ (list .int [.int 1]).HasNaN := by
    rw [HasNaN, hasNumber_list]
    rintro ⟨t, ht, h | h⟩ <;> cases List.mem_singleton.mp ht <;> cases h
  have hstored : Memory.Stored [.list .int [.leaf (.int 1)]]
      ⟨.place 0, [0], .list .int [.int 1]⟩ :=
    .list rfl (List.forall_mem_singleton.mpr (.leaf (.int 1) rfl))
  have hsame : (withEmpty .int).same (withEmpty .string) = true := by decide
  obtain ⟨m', q, hends, -, -, -, hcopy⟩ := hclone _ _ hstored hlist
  refine ⟨hrefl _ (hplain (by decide)), hsymm _ _ hsame, htrans _ _ _ hsame (by decide),
    ⟨m', q, hends, hcopy⟩, ?_⟩
  exact (htext _ _ (by decide) (by decide) (hplain (by decide)) (hplain (by decide))).mp hsame

end Tag

end Statuary
