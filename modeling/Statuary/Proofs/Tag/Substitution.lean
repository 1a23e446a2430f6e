import Statuary.Proofs.Tag.Marker

/-!
# Filling in a number is a change of the tree

A number is filled into the **text** of a tree, without looking at the tree. Where the placeholder
cannot be taken for anything else, this comes to the same as changing the **tree** and writing it
anew (`Statuary.Tag.substituteFirst_render`): the first text in the order of writing that is the
placeholder becomes the number, and everything around it stays as it was, byte for byte.

The placeholder cannot be taken for anything else if no name holds it, and no text but those that
are the placeholder (`Statuary.Tag.Unambiguous`). In such a tree the places at which the quoted
placeholder is found are exactly the texts that are the placeholder
(`Statuary.Tag.Unambiguous.marks_iff`); a text that ends in a quote and the placeholder is found as
well, and is what the condition is there for. What stands before the first place is passed over,
whatever is written there, so the induction is on where the first place is
(`Statuary.Tag.FirstReplaced`).
-/

namespace Statuary.Tag

/-! ### Trees in a tree -/

/-- **A tree occurs in a tree**: it is the tree, or occurs in an item or in the value of an
entry. -/
inductive Occurs (t : Tag) : Tag → Prop where
  /-- The tree itself. -/
  | here : Occurs t t
  /-- In an item of a list. -/
  | item {elem : Kind} {items : List Tag} {u : Tag} (hu : u ∈ items) (h : Occurs t u) :
    Occurs t (.list elem items)
  /-- In the value of an entry of a compound. -/
  | entry {es : Entries} {e : String × Tag} (he : e ∈ es) (h : Occurs t e.2) :
    Occurs t (.compound es)

/-- **The first tree in the order of writing is replaced**: where `old` occurs for the first time in
a tree, `new` stands in the other one, and nothing else is different. -/
inductive FirstReplaced (old new : Tag) : Tag → Tag → Prop where
  /-- The tree itself is replaced. -/
  | here : FirstReplaced old new old new
  /-- An item is changed, and there is none before it to be changed. -/
  | item {elem : Kind} {pre post : List Tag} {t u : Tag} (hpre : ∀ x ∈ pre, ¬ Occurs old x)
    (h : FirstReplaced old new t u) :
    FirstReplaced old new (.list elem (pre ++ t :: post)) (.list elem (pre ++ u :: post))
  /-- The value of an entry is changed, and there is none before it to be changed. -/
  | entry {pre post : Entries} {k : String} {t u : Tag} (hpre : ∀ e ∈ pre, ¬ Occurs old e.2)
    (h : FirstReplaced old new t u) :
    FirstReplaced old new (.compound (pre ++ (k, t) :: post)) (.compound (pre ++ (k, u) :: post))

theorem occurs_string {t : Tag} {s : String} : Occurs t (.string s) ↔ t = .string s := by
  refine ⟨fun h => ?_, fun h => h ▸ .here⟩
  cases h
  rfl

theorem occurs_string_list {s : String} {elem : Kind} {items : List Tag} :
    Occurs (.string s) (.list elem items) ↔ ∃ u ∈ items, Occurs (.string s) u := by
  refine ⟨fun h => ?_, fun ⟨u, hu, h⟩ => .item hu h⟩
  cases h with
  | item hu h => exact ⟨_, hu, h⟩

theorem occurs_string_compound {s : String} {es : Entries} :
    Occurs (.string s) (.compound es) ↔ ∃ e ∈ es, Occurs (.string s) e.2 := by
  refine ⟨fun h => ?_, fun ⟨e, he, h⟩ => .entry he h⟩
  cases h with
  | entry he h => exact ⟨_, he, h⟩

/-- The first member of a list with a property. -/
theorem exists_first_of_mem {α : Type} {p : α → Prop} {xs : List α} (h : ∃ x ∈ xs, p x) :
    ∃ pre x post, xs = pre ++ x :: post ∧ (∀ y ∈ pre, ¬ p y) ∧ p x := by
  classical
  obtain ⟨x, hx, hp⟩ := h
  obtain ⟨pre, y, post, rfl, hpre, hy⟩ := exists_first (p := fun x => decide (p x))
    (List.any_eq_true.mpr ⟨x, hx, decide_eq_true hp⟩)
  refine ⟨pre, y, post, rfl, fun z hz hpz => ?_, of_decide_eq_true hy⟩
  exact List.any_eq_false.mp hpre z hz (decide_eq_true hpz)

/-- What occurs in a tree can be replaced where it occurs first. -/
theorem Occurs.exists_firstReplaced {s : String} {t : Tag} (h : Occurs (.string s) t) (new : Tag) :
    ∃ u, FirstReplaced (.string s) new t u := by
  induction t using induct with
  | string r =>
    obtain rfl := string.inj (occurs_string.mp h)
    exact ⟨_, .here⟩
  | list elem items ih =>
    obtain ⟨pre, t, post, rfl, hpre, ht⟩ := exists_first_of_mem (occurs_string_list.mp h)
    obtain ⟨u, hu⟩ := ih t (by simp) ht
    exact ⟨_, .item hpre hu⟩
  | compound es ih =>
    obtain ⟨pre, e, post, rfl, hpre, he⟩ := exists_first_of_mem (occurs_string_compound.mp h)
    obtain ⟨u, hu⟩ := ih e (by simp) he
    exact ⟨_, .entry hpre hu⟩
  | _ => cases h

theorem FirstReplaced.occurs {old new t u : Tag} (h : FirstReplaced old new t u) :
    Occurs old t := by
  induction h with
  | here => exact .here
  | item _ _ ih => exact .item (List.mem_append_right _ (List.mem_cons_self ..)) ih
  | entry _ _ ih =>
    exact .entry (List.mem_append_right _ (List.mem_cons_self ..)) ih

/-! ### Trees without doubt -/

/-- **The placeholder cannot be taken for anything else**: no name holds it, and no text but those
that are the placeholder. -/
structure Unambiguous (t : Tag) : Prop where
  /-- A text is the placeholder or does not hold it. -/
  texts : ∀ s, Occurs (.string s) t → s = placeholder ∨ contains placeholder s = false
  /-- No name holds it. -/
  names : ∀ es, Occurs (.compound es) t → ∀ e ∈ es, contains placeholder e.1 = false

theorem unambiguous_string {s : String} :
    Unambiguous (.string s) ↔ s = placeholder ∨ contains placeholder s = false := by
  refine ⟨fun h => h.texts s .here, fun h => ⟨fun r hr => ?_, fun es hes => by cases hes⟩⟩
  cases hr
  exact h

theorem unambiguous_list {elem : Kind} {items : List Tag} :
    Unambiguous (.list elem items) ↔ ∀ t ∈ items, t.Unambiguous := by
  refine ⟨fun h t ht => ?_, fun h => ⟨fun s hs => ?_, fun es hes => ?_⟩⟩
  · exact ⟨fun s hs => h.texts s (.item ht hs), fun es hes => h.names es (.item ht hes)⟩
  · cases hs with
    | item ht hs => exact (h _ ht).texts s hs
  · cases hes with
    | item ht hes => exact (h _ ht).names es hes

theorem unambiguous_compound {es : Entries} :
    Unambiguous (.compound es) ↔
      ∀ e ∈ es, contains placeholder e.1 = false ∧ e.2.Unambiguous := by
  refine ⟨fun h e he => ⟨h.names es .here e he, ?_⟩, fun h => ⟨fun s hs => ?_, fun fs hfs => ?_⟩⟩
  · exact ⟨fun s hs => h.texts s (.entry he hs), fun fs hfs => h.names fs (.entry he hfs)⟩
  · cases hs with
    | entry he hs => exact (h _ he).2.texts s hs
  · cases hfs with
    | here => exact fun e he => (h e he).1
    | entry he hfs => exact (h _ he).2.names fs hfs

namespace Unambiguous

/-- **What is found in the text of such a tree is the placeholder.** -/
theorem marks_iff {t : Tag} (h : t.Unambiguous) :
    marks t = true ↔ Occurs (.string placeholder) t := by
  induction t using induct with
  | string s =>
    rw [occurs_string, string.injEq, marks]
    constructor
    · intro hmarked
      refine ((unambiguous_string.mp h).resolve_right fun hclear => ?_).symm
      rw [marked_of_contains hclear] at hmarked
      cases hmarked
    · rintro rfl
      exact Bool.or_eq_true_iff.mpr (.inl (beq_self_eq_true _))
  | list elem items ih =>
    rw [occurs_string_list, marks, marksItems_eq, List.any_eq_true]
    exact exists_congr fun u => and_congr_right fun hu => ih u hu (unambiguous_list.mp h u hu)
  | compound es ih =>
    rw [occurs_string_compound, marks, marksEntries_eq, List.any_eq_true]
    refine exists_congr fun e => and_congr_right fun he => ?_
    obtain ⟨hname, hvalue⟩ := unambiguous_compound.mp h e he
    rw [marked_of_contains hname, Bool.false_or, ih e he hvalue]
  | _ => exact iff_of_false Bool.noConfusion (fun hocc => by cases hocc)

theorem marks_eq_false {t : Tag} (h : t.Unambiguous) (hnot : ¬ Occurs (.string placeholder) t) :
    marks t = false :=
  Bool.eq_false_iff.mpr fun hmarks => hnot (h.marks_iff.mp hmarks)

/-- **Filling in the text is replacing in the tree**, whatever follows the text. -/
theorem fills_write {n : Int32} {t u : Tag} (h : t.Unambiguous)
    (hfirst : FirstReplaced (.string placeholder) (.int n) t u) :
    ∀ d, Fills (intDigits n.toInt) (write .compact d t []) (write .compact d u []) := by
  have hcolon : Passes [':'] := passes_of_notMem (by decide) (by simp [Apart])
  induction hfirst with
  | here =>
    intro d
    rw [write, write, List.append_nil, List.append_nil]
    exact fills_placeholder _
  | @item elem pre post t u hpre hfirst ih =>
    intro d
    have hitems := unambiguous_list.mp h
    have ht := hitems t (List.mem_append_right pre (List.mem_cons_self ..))
    have hfree : marksItems pre = false := by
      rw [marksItems_eq, List.any_eq_false]
      intro x hx
      rw [(hitems x (List.mem_append_left _ hx)).marks_eq_false (hpre x hx)]
      exact Bool.false_ne_true
    have hlist : Fills _ (write .compact d (.list elem (pre ++ t :: post)) []) _ :=
      fills_list elem hfree (ht.marks_iff.mpr hfirst.occurs) (ih ht (d + 1))
    rwa [write_list_compact d elem (pre ++ u :: post), List.map_append, List.map_cons]
  | @entry pre post k t u hpre hfirst ih =>
    intro d
    have hentries := unambiguous_compound.mp h
    obtain ⟨hkey, ht⟩ := hentries (k, t) (List.mem_append_right pre (List.mem_cons_self ..))
    have hfree : marksEntries pre = false := by
      rw [marksEntries_eq, List.any_eq_false]
      intro e he
      obtain ⟨hname, hvalue⟩ := hentries e (List.mem_append_left _ he)
      rw [marked_of_contains hname, hvalue.marks_eq_false (hpre e he)]
      exact Bool.false_ne_true
    obtain ⟨hapart, hne⟩ := apart_write (ht.marks_iff.mpr hfirst.occurs) (d + 1)
    have hentry : Fills (intDigits n.toInt) (entryText .compact (d + 1) (k, t))
        (entryText .compact (d + 1) (k, u)) := by
      have hvalue := ((passes_keyText (marked_of_contains hkey)).append hcolon).fills hapart hne
        (ih ht (d + 1))
      rwa [List.append_assoc, List.append_assoc] at hvalue
    have hcompound : Fills _ (write .compact d (.compound (pre ++ (k, t) :: post)) []) _ :=
      fills_compound hfree hentry
    rwa [write_compound_compact d (pre ++ (k, u) :: post), List.map_append, List.map_cons]

end Unambiguous

/-! ### Filling in a text -/

/-- What is filled into the text of a tree. -/
theorem substituteFirst_of_fills {t u : Tag} {expr : String}
    (h : Fills expr.toList (write .compact 0 t []) (write .compact 0 u [])) :
    ∃ before after : String,
      t.render .compact = before ++ String.ofList (quote placeholder) ++ after ∧
      u.render .compact = before ++ expr ++ after ∧
      substituteFirst (t.render .compact) placeholder expr = (u.render .compact, true) := by
  obtain ⟨before, after, hsplit, htext⟩ := h
  have hfirst := hsplit []
  rw [List.append_nil, List.append_nil] at hfirst
  have hwritten := append_of_splitAtFirst hfirst
  refine ⟨String.ofList before, String.ofList after, ?_, ?_, ?_⟩
  · rw [render, hwritten, String.ofList_append, String.ofList_append]
  · apply String.toList_inj.mp
    simp [render, htext]
  · rw [substituteFirst, render, String.toList_ofList, show splitAtFirst _ _ = _ from hfirst]
    rw [render, htext]

theorem substituteFirst_of_passes {t : Tag} {expr : String}
    (h : Passes (write .compact 0 t [])) :
    substituteFirst (t.render .compact) placeholder expr = (t.render .compact, false) := by
  have hnone : atMarker (write .compact 0 t []) = none := by
    have hsplit := h.split [] (by simp [Apart])
    rw [List.append_nil] at hsplit
    exact hsplit
  rw [substituteFirst, render, String.toList_ofList, show splitAtFirst _ _ = _ from hnone]

/-- **Filling a number into the text of a tree is replacing the placeholder in the tree**, if the
placeholder cannot be taken for anything else. Something is replaced exactly if the placeholder is a
text of the tree. Then the text is that of the tree in which the first such text is the number, and
differs from the old one in the place of the placeholder alone; else it stays as it is. -/
theorem substituteFirst_render {t : Tag} (h : t.Unambiguous) (n : Int32) :
    ((substituteFirst (t.render .compact) placeholder (toString n.toInt)).2 = true ↔
      Occurs (.string placeholder) t) ∧
    (Occurs (.string placeholder) t →
      (∃ u, FirstReplaced (.string placeholder) (.int n) t u) ∧
      ∀ u, FirstReplaced (.string placeholder) (.int n) t u →
        (substituteFirst (t.render .compact) placeholder (toString n.toInt)).1 =
          u.render .compact ∧
        ∃ before after : String,
          t.render .compact = before ++ String.ofList (quote placeholder) ++ after ∧
          u.render .compact = before ++ toString n.toInt ++ after) ∧
    (¬ Occurs (.string placeholder) t →
      (substituteFirst (t.render .compact) placeholder (toString n.toInt)).1 =
        t.render .compact) := by
  have hfilled : ∀ u, FirstReplaced (.string placeholder) (.int n) t u →
      ∃ before after : String,
        t.render .compact = before ++ String.ofList (quote placeholder) ++ after ∧
        u.render .compact = before ++ toString n.toInt ++ after ∧
        substituteFirst (t.render .compact) placeholder (toString n.toInt) =
          (u.render .compact, true) := by
    intro u hu
    refine substituteFirst_of_fills ?_
    rw [toList_toString]
    exact h.fills_write hu 0
  have hpassed : ¬ Occurs (.string placeholder) t →
      substituteFirst (t.render .compact) placeholder (toString n.toInt) =
        (t.render .compact, false) :=
    fun hnot => substituteFirst_of_passes (passes_write t (h.marks_eq_false hnot) 0)
  refine ⟨⟨fun hreplaced => ?_, fun hocc => ?_⟩, fun hocc => ⟨?_, fun u hu => ?_⟩, fun hnot => ?_⟩
  · by_contra hnot
    rw [hpassed hnot] at hreplaced
    cases hreplaced
  · obtain ⟨u, hu⟩ := hocc.exists_firstReplaced (.int n)
    obtain ⟨before, after, -, -, hsub⟩ := hfilled u hu
    rw [hsub]
  · exact hocc.exists_firstReplaced _
  · obtain ⟨before, after, hold, hnew, hsub⟩ := hfilled u hu
    exact ⟨by rw [hsub], before, after, hold, hnew⟩
  · rw [hpassed hnot]

/-- A tree with two placeholders, a text that begins like one, and a name that needs quotes. -/
def twofold (text : Tag) : Tag :=
  .compound [("two \"lines\"", .list .string [.string "\"%custom", text, .string placeholder]),
    ("Count", .byte 1)]

/-- There the first of the two becomes a number. -/
theorem substituteFirst_render_twofold : (twofold (.string placeholder)).Unambiguous ∧
    substituteFirst ((twofold (.string placeholder)).render .compact) placeholder "7" =
      ((twofold (.int 7)).render .compact, true) := by
  have hclear : (twofold (.string placeholder)).Unambiguous := by
    have hcount : Unambiguous (.byte 1) := ⟨fun _ h => (nomatch h), fun _ h => (nomatch h)⟩
    refine unambiguous_compound.mpr (List.forall_mem_cons.mpr ⟨⟨by decide, ?_⟩,
      List.forall_mem_singleton.mpr ⟨by decide, hcount⟩⟩)
    refine unambiguous_list.mpr (List.forall_mem_cons.mpr ⟨?_, List.forall_mem_cons.mpr ⟨?_,
      List.forall_mem_singleton.mpr ?_⟩⟩)
    · exact unambiguous_string.mpr (.inr (by decide))
    · exact unambiguous_string.mpr (.inl rfl)
    · exact unambiguous_string.mpr (.inl rfl)
  have hfirst : FirstReplaced (.string placeholder) (.int 7) (twofold (.string placeholder))
      (twofold (.int 7)) := by
    have hother : ¬ Occurs (.string placeholder) (.string "\"%custom") := fun h =>
      absurd (string.inj (occurs_string.mp h)) (by decide)
    have hitems : FirstReplaced (.string placeholder) (.int 7)
        (.list .string ([.string "\"%custom"] ++ .string placeholder :: [.string placeholder]))
        (.list .string ([.string "\"%custom"] ++ .int 7 :: [.string placeholder])) :=
      .item (List.forall_mem_singleton.mpr hother) .here
    exact .entry (List.forall_mem_nil _) hitems
  obtain ⟨hreplaced, hfilled, -⟩ := substituteFirst_render hclear 7
  refine ⟨hclear, Prod.ext ?_ ?_⟩
  · exact ((hfilled hfirst.occurs).2 _ hfirst).1
  · exact hreplaced.mpr hfirst.occurs

end Statuary.Tag
