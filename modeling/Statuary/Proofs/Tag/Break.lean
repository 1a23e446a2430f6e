import Statuary.Proofs.Naming.Tags
import Statuary.Proofs.Tag.Marker
import Statuary.Proofs.Text.Split

/-!
# Line breaks in the text of a tree

A command is one line of a file, and the compact text of a tree is part of commands. The printer
writes no line break of its own there, but between quotes it writes **every** character but two as
it stands, and a line break is not one of the two. So the text goes over a line exactly if some text
or name in the tree does (`Statuary.Tag.any_isBreak_write`), and filling in the number of a model
neither adds a line break nor takes one away (`Statuary.breaks_substituteFirst`).
-/

namespace Statuary

/-! ### Line breaks -/

/-- A character that ends a line. -/
def isBreak (c : Char) : Bool :=
  c == '\n' || c == '\r'

/-- The text goes over more than one line. -/
def breaks (s : String) : Bool :=
  s.toList.any isBreak

@[simp]
theorem breaks_append (s t : String) : breaks (s ++ t) = (breaks s || breaks t) := by
  rw [breaks, String.toList_append, List.any_append]
  rfl

@[simp]
theorem breaks_ofList (cs : List Char) : breaks (String.ofList cs) = cs.any isBreak := by
  rw [breaks, String.toList_ofList]

theorem notMem_of_breaks {s : String} (h : breaks s = false) : '\n' ∉ s.toList := by
  intro hmem
  rw [breaks, List.any_eq_false] at h
  exact h _ hmem rfl

theorem isBreak_of_isTokenChar {c : Char} (h : isTokenChar c = true) : isBreak c = false := by
  by_contra hc
  simp only [isBreak, Bool.not_eq_false, Bool.or_eq_true, beq_iff_eq] at hc
  rcases hc with rfl | rfl <;> cases h

theorem IsToken.breaks {s : String} (h : IsToken s) : breaks s = false := by
  rw [Statuary.breaks, List.any_eq_false]
  intro c hc
  rw [isBreak_of_isTokenChar (h c hc)]
  exact Bool.false_ne_true

theorem any_isBreak_of_isWord {w : List Char} (hw : IsWord w) : w.any isBreak = false := by
  rw [List.any_eq_false]
  intro c hc
  rw [isBreak_of_isTokenChar (isTokenChar_of_isBareChar (hw.2 c hc))]
  exact Bool.false_ne_true

theorem breaks_toString (n : ℤ) : breaks (toString n) = false := by
  rw [breaks, toList_toString]
  exact any_isBreak_of_isWord (isWord_number n)

theorem any_congr_of_mem {α : Type} {p q : α → Bool} {xs : List α} (h : ∀ x ∈ xs, p x = q x) :
    xs.any p = xs.any q := by
  rw [Bool.eq_iff_iff, List.any_eq_true, List.any_eq_true]
  exact exists_congr fun x => and_congr_right fun hx => by rw [h x hx]

theorem breaks_intercalate {sep : String} (hsep : breaks sep = false) (xs : List String) :
    breaks (sep.intercalate xs) = xs.any breaks := by
  induction xs with
  | nil => rfl
  | cons x xs ih =>
    cases xs with
    | nil => rw [String.intercalate_singleton, List.any_cons, List.any_nil, Bool.or_false]
    | cons y ys =>
      rw [String.intercalate_cons_cons, breaks_append, breaks_append, hsep, Bool.or_false, ih]
      rfl

/-! ### Trees -/

namespace Tag

mutual

/-- **Some text or name in a tree goes over a line.** -/
def breaks : Tag → Bool
  | .string s => Statuary.breaks s
  | .list _ items => breaksItems items
  | .compound es => breaksEntries es
  | .byte _ | .short _ | .int _ | .long _ | .float _ | .double _ => false
  | .byteArray _ | .intArray _ | .longArray _ => false

/-- Some text or name in the items of a list goes over a line. -/
def breaksItems : List Tag → Bool
  | [] => false
  | t :: ts => breaks t || breaksItems ts

/-- Some text or name in the entries of a compound goes over a line. -/
def breaksEntries : Entries → Bool
  | [] => false
  | (k, t) :: es => Statuary.breaks k || breaks t || breaksEntries es

end

theorem breaksItems_eq (items : List Tag) : breaksItems items = items.any breaks := by
  induction items with
  | nil => rfl
  | cons t ts ih => rw [breaksItems, ih, List.any_cons]

theorem breaksEntries_eq (es : Entries) :
    breaksEntries es = es.any fun e => Statuary.breaks e.1 || breaks e.2 := by
  induction es with
  | nil => rfl
  | cons e es ih =>
    obtain ⟨k, t⟩ := e
    rw [breaksEntries, ih, List.any_cons]

/-- The backslashes that are written before some characters end no line. -/
theorem any_isBreak_quote (s : String) : (quote s).any isBreak = Statuary.breaks s := by
  have hescaped : ∀ cs : List Char,
      (cs.flatMap fun c => if c = '"' ∨ c = '\\' then ['\\', c] else [c]).any isBreak =
        cs.any isBreak := by
    intro cs
    induction cs with
    | nil => rfl
    | cons c cs ih =>
      rw [List.flatMap_cons, List.any_append, ih, List.any_cons]
      split_ifs
      · rw [List.any_cons, List.any_cons, List.any_nil, Bool.or_false]
        rfl
      · rw [List.any_cons, List.any_nil, Bool.or_false]
  rw [quote, List.cons_append, List.any_cons, List.any_append, hescaped, List.any_cons,
    List.any_nil]
  exact Bool.or_false _

theorem any_isBreak_keyText (name : String) :
    (keyText name).any isBreak = Statuary.breaks name := by
  rw [keyText]
  split_ifs
  · rfl
  · exact any_isBreak_quote name

theorem any_isBreak_array {α : Type} (text : α → List Char) (h : ∀ a, IsWord (text a))
    (vs : List α) : ([','].intercalate (vs.map text)).any isBreak = false := by
  rw [any_intercalate rfl, List.any_map, List.any_eq_false]
  intro v _
  rw [Function.comp_apply, any_isBreak_of_isWord (h v)]
  exact Bool.false_ne_true

/-- **The text of a tree goes over a line exactly if some text or name in the tree does.** -/
theorem any_isBreak_write (t : Tag) : ∀ d, (write .compact d t []).any isBreak = t.breaks := by
  have hword : ∀ {v : Tag}, (∀ d, IsWord (write .compact d v [])) → v.breaks = false →
      ∀ d, (write .compact d v []).any isBreak = v.breaks :=
    fun hw hv d => (any_isBreak_of_isWord (hw d)).trans hv.symm
  induction t using induct with
  | byte v => exact hword (fun d => isWord_intDigits _ (isBareChar_of_mem_singleton rfl)) rfl
  | short v => exact hword (fun d => isWord_intDigits _ (isBareChar_of_mem_singleton rfl)) rfl
  | int v =>
    refine hword (fun d => ?_) rfl
    rw [write, List.append_nil]
    exact isWord_number _
  | long v => exact hword (fun d => isWord_intDigits _ (isBareChar_of_mem_singleton rfl)) rfl
  | float x =>
    exact hword (fun d => isWord_numberText BinaryFormat.single_spans x
      (isBareChar_of_mem_singleton rfl)) rfl
  | double x =>
    exact hword (fun d => isWord_numberText BinaryFormat.double_spans x
      (isBareChar_of_mem_singleton rfl)) rfl
  | string s =>
    intro d
    rw [write, List.append_nil]
    exact any_isBreak_quote s
  | byteArray vs =>
    intro d
    rw [write, writeArray, List.map_map]
    simp only [List.any_cons, List.any_append]
    exact congrArg (· || false) (any_isBreak_array _
      (fun v => isWord_intDigits _ (isBareChar_of_mem_singleton rfl)) vs)
  | intArray vs =>
    intro d
    rw [write, writeArray, List.map_map]
    simp only [List.any_cons, List.any_append]
    exact congrArg (· || false) (any_isBreak_array _
      (fun v => isWord_intDigits _ fun _ hc => absurd hc List.not_mem_nil) vs)
  | longArray vs =>
    intro d
    rw [write, writeArray, List.map_map]
    simp only [List.any_cons, List.any_append]
    exact congrArg (· || false) (any_isBreak_array _
      (fun v => isWord_intDigits _ (isBareChar_of_mem_singleton rfl)) vs)
  | list elem items ih =>
    intro d
    rw [write_list_compact, listText, List.any_cons, List.any_append, any_intercalate rfl,
      List.any_map, breaks, breaksItems_eq]
    have hitems : items.any ((·.any isBreak) ∘ fun u => write .compact (d + 1) u []) =
        items.any breaks := any_congr_of_mem fun u hu => ih u hu (d + 1)
    rw [hitems]
    exact Bool.or_false _
  | compound es ih =>
    intro d
    rw [write_compound_compact, compoundText, List.any_cons, List.any_append, any_intercalate rfl,
      List.any_map, breaks, breaksEntries_eq]
    have hentries : es.any ((·.any isBreak) ∘ entryText .compact (d + 1)) =
        es.any fun e => Statuary.breaks e.1 || breaks e.2 := by
      refine any_congr_of_mem fun e he => ?_
      rw [Function.comp_apply, entryText, List.any_append, List.any_append, any_isBreak_keyText,
        ih e he (d + 1)]
      rfl
    rw [hentries]
    exact Bool.or_false _

theorem breaks_render (t : Tag) : Statuary.breaks (t.render .compact) = t.breaks := by
  rw [render, breaks_ofList, any_isBreak_write]

end Tag

/-- Filling in a text on one line changes nothing about line breaks. -/
theorem breaks_substituteFirst {marker expr : String} (hmarker : breaks marker = false)
    (hexpr : breaks expr = false) (text : String) :
    breaks (substituteFirst text marker expr).1 = breaks text := by
  rw [substituteFirst]
  split
  · rfl
  · rename_i before after hsplit
    have htext : text.toList = before ++ Tag.quote marker ++ after := append_of_splitAtFirst hsplit
    rw [breaks_ofList, breaks, htext]
    simp only [List.any_append, Tag.any_isBreak_quote, hmarker]
    rw [show expr.toList.any isBreak = false from hexpr]

end Statuary
