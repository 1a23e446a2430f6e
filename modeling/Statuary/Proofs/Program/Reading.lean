import Statuary.Proofs.Number.Numeral
import Statuary.Proofs.Program.Numbering
import Statuary.Proofs.Program.Preservation
import Statuary.Proofs.Text.Split

/-!
# What the lines of a pack say

A file of a pack is text, and the game goes by the text alone. Here the texts of lines are read: a
text calls a generated function if a reference to it stands at the end
(`Statuary.PackOptions.call?`), what stands before the reference may test a flag
(`Statuary.PackOptions.test?`), and a text may set a flag (`Statuary.PackOptions.set?`). Each of
these readers is described by **the texts that it accepts**, and none of them uses the way in which
lines are written.

A command of a program is a text too, and nothing keeps it from looking like a call or like a line
that sets a flag; then it is read as that. A line without such a command is read as what it was
written for (`Statuary.PackLine.read_text`). The namespace, the directory and the objective may be
any texts, even some with blanks or digits: what is read is found from the number, and digits begin
and end a text in one way only.
-/

namespace Statuary

/-! ### Texts with a number -/

/-- The number that digits spell, if they are all its digits. -/
def numeral? (ds : List Char) : Option ℕ :=
  if natDigits (digitsValue ds) = ds then some (digitsValue ds) else none

/-- A text that begins with a number: the number, and what stands behind it. -/
def leadNumber? (s : String) : Option (ℕ × String) :=
  (numeral? (s.toList.takeWhile isDigit)).map fun n =>
    (n, String.ofList (s.toList.dropWhile isDigit))

/-- A text that ends in a number: what stands before it, and the number. -/
def splitNumber? (s : String) : Option (String × ℕ) :=
  (numeral? (s.toList.reverse.takeWhile isDigit).reverse).map fun n =>
    (String.ofList (s.toList.reverse.dropWhile isDigit).reverse, n)

theorem numeral?_eq_some_iff {ds : List Char} {n : ℕ} :
    numeral? ds = some n ↔ ds = natDigits n := by
  rw [numeral?]
  constructor
  · intro h
    split_ifs at h with hds
    rw [← Option.some_inj.mp h, hds]
  · rintro rfl
    rw [digitsValue_natDigits, if_pos rfl]

theorem toList_toString_nat (n : ℕ) : (toString n).toList = natDigits n := by
  rw [Nat.toString_eq_repr, Nat.toList_repr, natDigits]

/-- Digits are taken up to what is no digit. -/
theorem takeWhile_isDigit_append {ds rest : List Char} (hds : ∀ c ∈ ds, isDigit c = true)
    (h : ∀ c ∈ rest.head?, isDigit c = false) :
    (ds ++ rest).takeWhile isDigit = ds ∧ (ds ++ rest).dropWhile isDigit = rest := by
  rw [List.takeWhile_append_of_pos hds, List.dropWhile_append_of_pos hds]
  cases rest with
  | nil => exact ⟨List.append_nil ds, rfl⟩
  | cons c rest =>
    have hc : ¬ isDigit c = true := by simp [h c rfl]
    rw [List.takeWhile_cons_of_neg hc, List.dropWhile_cons_of_neg hc, List.append_nil]
    exact ⟨rfl, rfl⟩

theorem leadNumber?_append {rest : String} {c : Char} (h : rest.toList.head? = some c)
    (hc : isDigit c = false) (n : ℕ) : leadNumber? (toString n ++ rest) = some (n, rest) := by
  have hrest : ∀ d ∈ rest.toList.head?, isDigit d = false := by simpa [h] using hc
  obtain ⟨htake, hdrop⟩ :=
    takeWhile_isDigit_append (fun d hd => isDigit_of_mem_natDigits (n := n) hd) hrest
  rw [leadNumber?, String.toList_append, toList_toString_nat, htake, hdrop,
    numeral?_eq_some_iff.mpr rfl, Option.map_some, String.ofList_toList]

theorem splitNumber?_append {front : String} {c : Char} (h : front.toList.getLast? = some c)
    (hc : isDigit c = false) (n : ℕ) :
    splitNumber? (front ++ toString n) = some (front, n) := by
  have hdigits : ∀ d ∈ (natDigits n).reverse, isDigit d = true :=
    fun d hd => isDigit_of_mem_natDigits (List.mem_reverse.mp hd)
  have hfront : ∀ d ∈ front.toList.reverse.head?, isDigit d = false := by
    simpa [List.head?_reverse, h] using hc
  obtain ⟨htake, hdrop⟩ := takeWhile_isDigit_append hdigits hfront
  rw [splitNumber?, String.toList_append, toList_toString_nat, List.reverse_append, htake, hdrop,
    List.reverse_reverse, List.reverse_reverse, numeral?_eq_some_iff.mpr rfl, Option.map_some,
    String.ofList_toList]

theorem eq_append_of_leadNumber? {s rest : String} {n : ℕ} (h : leadNumber? s = some (n, rest)) :
    s = toString n ++ rest := by
  obtain ⟨m, hm, he⟩ := Option.map_eq_some_iff.mp h
  obtain ⟨rfl, rfl⟩ := Prod.mk.inj he
  apply String.toList_inj.mp
  rw [String.toList_append, toList_toString_nat, ← numeral?_eq_some_iff.mp hm,
    String.toList_ofList, List.takeWhile_append_dropWhile]

theorem eq_append_of_splitNumber? {s front : String} {n : ℕ}
    (h : splitNumber? s = some (front, n)) : s = front ++ toString n := by
  obtain ⟨m, hm, he⟩ := Option.map_eq_some_iff.mp h
  obtain ⟨rfl, rfl⟩ := Prod.mk.inj he
  apply String.toList_inj.mp
  rw [String.toList_append, toList_toString_nat, ← numeral?_eq_some_iff.mp hm,
    String.toList_ofList, ← List.reverse_append, List.takeWhile_append_dropWhile,
    List.reverse_reverse]

/-! ### Calls -/

namespace PackOptions

variable {o : PackOptions} {text head cond : String} {f n : ℕ}

/-- What stands before the number in a call. -/
def callLead (o : PackOptions) : String :=
  " function " ++ o.space ++ ":" ++ o.generatedDir ++ "/"

/-- **Reading a call** of a generated function: the head before it, and its number. -/
def call? (o : PackOptions) (text : String) : Option (String × ℕ) :=
  (splitNumber? text).bind fun (front, n) => (between? "" o.callLead front).map (·, n)

theorem getLast?_append_callLead (head : String) :
    (head ++ o.callLead).toList.getLast? = some '/' := by
  rw [callLead, ← String.append_assoc, String.toList_append]
  exact List.getLast?_concat

theorem call?_eq_some_iff :
    o.call? text = some (head, n) ↔ text = head ++ o.callLead ++ toString n := by
  constructor
  · intro h
    obtain ⟨⟨front, m⟩, hsplit, hfront⟩ := Option.bind_eq_some_iff.mp h
    obtain ⟨inner, hinner, he⟩ := Option.map_eq_some_iff.mp hfront
    obtain ⟨rfl, rfl⟩ := Prod.mk.inj he
    rw [between?_eq_some_iff, String.empty_append] at hinner
    rw [eq_append_of_splitNumber? hsplit, hinner]
  · rintro rfl
    have hhead : between? "" o.callLead (head ++ o.callLead) = some head := by
      rw [between?_eq_some_iff, String.empty_append]
    rw [call?, splitNumber?_append (getLast?_append_callLead head) (by decide), Option.bind_some]
    dsimp only
    rw [hhead]
    rfl

/-- A number behind a blank is no reference. -/
theorem call?_eq_none (front : String) (n : ℕ) : o.call? (front ++ " " ++ toString n) = none := by
  rw [Option.eq_none_iff_forall_ne_some]
  rintro ⟨head, m⟩ h
  have hlast : (front ++ " ").toList.getLast? = some ' ' := by simp
  have hsplit := splitNumber?_append hlast (by decide) n
  -- the text is cut before its digits, where a reference has a slash
  have hcall := splitNumber?_append (getLast?_append_callLead (o := o) head) (by decide) m
  rw [← call?_eq_some_iff.mp h, hsplit] at hcall
  have hfront := (Prod.mk.inj (Option.some_inj.mp hcall)).1
  rw [hfront, getLast?_append_callLead] at hlast
  exact absurd hlast (by decide)

/-- The path of the function that a call with a number names. -/
def calledPath (o : PackOptions) (n : ℕ) : String :=
  Path.join ["data", o.space, "functions", o.generatedDir ++ "/" ++ toString n] ++ ".mcfunction"

/-- A generated function lies where a call of it leads to. -/
theorem calledPath_eq (hspace : o.space ≠ "") : o.calledPath = o.generatedPath := by
  ext1 n
  have hne : "" ∉ [o.generatedDir ++ "/" ++ toString n] := by
    intro h
    have hslash := congrArg String.toList (List.mem_singleton.mp h)
    simp at hslash
  have hcalled : o.calledPath n = PackPart.functionPath o [o.generatedDir ++ "/" ++ toString n] :=
    rfl
  rw [hcalled, generatedPath, PackPart.functionPath_eq hspace (List.cons_ne_nil _ _) hne,
    PackPart.functionPath_eq hspace (List.cons_ne_nil _ _) (empty_notMem_generated n),
    String.intercalate_singleton, intercalate_generated]

/-! ### Flags -/

/-- **Reading a test** of a flag in a head: whether it is down, or whether it is up and, if so, in
which contexts. -/
def test? (o : PackOptions) (head : String) : Option (ℕ × Option String) :=
  ((between? "execute if score #if_" " run" head).bind leadNumber?).bind fun (f, rest) =>
    if rest = " " ++ o.flagObjective ++ " matches 0" then some (f, none)
    else (between? (" " ++ o.flagObjective ++ " matches 1 ") "" rest).map fun cond => (f, some cond)

/-- **Reading a text that sets a flag**: to down, or to up where a condition holds. -/
def set? (o : PackOptions) (text : String) : Option (ℕ × Option String) :=
  (((between? "scoreboard players set #if_" (" " ++ o.flagObjective ++ " 0") text).bind
      fun f => numeral? f.toList).map fun f => (f, none)).or <|
    ((between? "execute " (" " ++ o.flagObjective ++ " 1") text).bind splitNumber?).bind
      fun (front, f) => (between? "" " run scoreboard players set #if_" front).map
        fun cond => (f, some cond)

/-- A head tests whether a flag is down if it is this text. -/
theorem test?_eq_down_iff : o.test? head = some (f, none) ↔
    head = "execute if score #if_" ++ (toString f ++ (" " ++ o.flagObjective ++ " matches 0")) ++
      " run" := by
  constructor
  · intro h
    obtain ⟨⟨g, rest⟩, hlead, h⟩ := Option.bind_eq_some_iff.mp h
    obtain ⟨inner, hinner, hlead⟩ := Option.bind_eq_some_iff.mp hlead
    rw [between?_eq_some_iff.mp hinner, eq_append_of_leadNumber? hlead]
    dsimp only at h
    split_ifs at h with hrest
    · rw [← (Prod.mk.inj (Option.some_inj.mp h)).1, hrest]
    · obtain ⟨cond, -, he⟩ := Option.map_eq_some_iff.mp h
      cases he
  · rintro rfl
    have hblank : (" " ++ o.flagObjective ++ " matches 0").toList.head? = some ' ' := by simp
    rw [test?, between?_append, Option.bind_some, leadNumber?_append hblank (by decide),
      Option.bind_some]
    exact if_pos rfl

/-- A head tests whether a flag is up, in contexts that a condition selects, if it is this text. -/
theorem test?_eq_up_iff : o.test? head = some (f, some cond) ↔
    head = "execute if score #if_" ++ (toString f ++ (" " ++ o.flagObjective ++ " matches 1 " ++
      cond)) ++ " run" := by
  constructor
  · intro h
    obtain ⟨⟨g, rest⟩, hlead, h⟩ := Option.bind_eq_some_iff.mp h
    obtain ⟨inner, hinner, hlead⟩ := Option.bind_eq_some_iff.mp hlead
    rw [between?_eq_some_iff.mp hinner, eq_append_of_leadNumber? hlead]
    dsimp only at h
    split_ifs at h with hrest
    · cases h
    · obtain ⟨cond', hcond, he⟩ := Option.map_eq_some_iff.mp h
      obtain ⟨rfl, hsame⟩ := Prod.mk.inj he
      rw [between?_eq_some_iff, String.append_empty] at hcond
      rw [hcond, Option.some_inj.mp hsame]
  · rintro rfl
    have hblank : (" " ++ o.flagObjective ++ " matches 1 " ++ cond).toList.head? = some ' ' := by
      simp
    have hne : " " ++ o.flagObjective ++ " matches 1 " ++ cond ≠
        " " ++ o.flagObjective ++ " matches 0" := by
      rw [String.append_assoc, ne_eq, String.append_right_inj]
      intro h
      have hlist := congrArg String.toList h
      simp at hlist
    have hcond : between? (" " ++ o.flagObjective ++ " matches 1 ") ""
        (" " ++ o.flagObjective ++ " matches 1 " ++ cond) = some cond := by
      rw [between?_eq_some_iff, String.append_empty]
    rw [test?, between?_append, Option.bind_some, leadNumber?_append hblank (by decide),
      Option.bind_some]
    dsimp only
    rw [if_neg hne, hcond]
    rfl

/-- A text sets a flag to down if it is this one. -/
theorem set?_eq_down_iff : o.set? text = some (f, none) ↔
    text = "scoreboard players set #if_" ++ toString f ++ (" " ++ o.flagObjective ++ " 0") := by
  constructor
  · intro h
    rcases Option.or_eq_some_iff.mp h with h | ⟨-, h⟩
    · obtain ⟨g, hg, he⟩ := Option.map_eq_some_iff.mp h
      obtain ⟨digits, hdigits, hg⟩ := Option.bind_eq_some_iff.mp hg
      rw [numeral?_eq_some_iff, ← toList_toString_nat, String.toList_inj] at hg
      rw [between?_eq_some_iff.mp hdigits, hg, (Prod.mk.inj he).1]
    · obtain ⟨⟨front, g⟩, -, h⟩ := Option.bind_eq_some_iff.mp h
      obtain ⟨cond, -, he⟩ := Option.map_eq_some_iff.mp h
      cases he
  · rintro rfl
    rw [set?, between?_append, Option.bind_some, toList_toString_nat, numeral?_eq_some_iff.mpr rfl]
    rfl

/-- A text sets a flag to up where a condition holds if it is this one. -/
theorem set?_eq_up_iff : o.set? text = some (f, some cond) ↔
    text = "execute " ++ (cond ++ " run scoreboard players set #if_" ++ toString f) ++
      (" " ++ o.flagObjective ++ " 1") := by
  constructor
  · intro h
    rcases Option.or_eq_some_iff.mp h with h | ⟨-, h⟩
    · obtain ⟨g, -, he⟩ := Option.map_eq_some_iff.mp h
      cases he
    · obtain ⟨⟨front, g⟩, hsplit, h⟩ := Option.bind_eq_some_iff.mp h
      obtain ⟨inner, hinner, hsplit⟩ := Option.bind_eq_some_iff.mp hsplit
      obtain ⟨cond', hcond, he⟩ := Option.map_eq_some_iff.mp h
      obtain ⟨rfl, hsame⟩ := Prod.mk.inj he
      rw [between?_eq_some_iff, String.empty_append] at hcond
      rw [between?_eq_some_iff.mp hinner, eq_append_of_splitNumber? hsplit, hcond,
        Option.some_inj.mp hsame]
  · rintro rfl
    -- the text begins like no other that sets a flag
    have hother : ∀ trail, between? "scoreboard players set #if_" trail
        ("execute " ++ (cond ++ " run scoreboard players set #if_" ++ toString f) ++
          (" " ++ o.flagObjective ++ " 1")) = none :=
      between?_of_ne (c := 's') (d := 'e') rfl (by simp) (by decide)
    have hlast : (cond ++ " run scoreboard players set #if_").toList.getLast? = some '_' := by simp
    have hcond : between? "" " run scoreboard players set #if_"
        (cond ++ " run scoreboard players set #if_") = some cond := by
      rw [between?_eq_some_iff, String.empty_append]
    rw [set?, hother, Option.bind_none, Option.map_none, Option.none_or, between?_append,
      Option.bind_some, splitNumber?_append hlast (by decide), Option.bind_some]
    dsimp only
    rw [hcond]
    rfl

/-- The generated function that a text calls. -/
def callee? (o : PackOptions) (text : String) : Option ℕ :=
  (o.call? text).map (·.2)

/-- The flag that a text uses: one that it tests before a call, or one that it sets. -/
def usedFlag? (o : PackOptions) (text : String) : Option ℕ :=
  match o.call? text with
  | some (head, _) => (o.test? head).map (·.1)
  | none => (o.set? text).map (·.1)

end PackOptions

/-! ### Lines -/

namespace PackLine

/-- **Reading a line**, given which of the generated functions there are: a call of one of them, in
contexts or by a flag; a text that sets a flag; and otherwise a command. -/
def read (o : PackOptions) (made : ℕ → Bool) (text : String) : PackLine :=
  match (o.call? text).filter (made ·.2) with
  | some (head, n) =>
    match o.test? head with
    | some (f, some cond) => callIf f cond n
    | some (f, none) => callUnless f n
    | none => call head n
  | none =>
    match o.set? text with
    | some (f, some cond) => raise f cond
    | some (f, none) => clear f
    | none => command text

/-- **A line says what it is**: it calls a function that there is, its command neither calls such a
function nor sets a flag, and its head tests none. -/
def Plain (o : PackOptions) (made : ℕ → Bool) : PackLine → Prop
  | command text => (o.call? text).filter (made ·.2) = none ∧ o.set? text = none
  | call head n => made n = true ∧ o.test? head = none
  | callIf _ _ n => made n = true
  | callUnless _ n => made n = true
  | clear _ => True
  | raise _ _ => True

variable {o : PackOptions}

/-! ### Lines taken apart as they are read -/

theorem text_call (head : String) (n : ℕ) :
    (call head n).text o = head ++ o.callLead ++ toString n := by
  change head ++ " function " ++ o.reference n = head ++ o.callLead ++ toString n
  simp only [PackOptions.reference, PackOptions.callLead, String.append_assoc]

theorem text_callIf (f : ℕ) (cond : String) (n : ℕ) :
    (callIf f cond n).text o = "execute if score #if_" ++ (toString f ++
      (" " ++ o.flagObjective ++ " matches 1 " ++ cond)) ++ " run" ++ o.callLead ++ toString n := by
  change "execute if score " ++ o.flag f ++ " matches 1 " ++ cond ++ " run function " ++
    o.reference n = _
  apply String.toList_inj.mp
  simp [PackOptions.reference, PackOptions.flag, PackOptions.callLead]

theorem text_callUnless (f n : ℕ) :
    (callUnless f n).text o = "execute if score #if_" ++ (toString f ++
      (" " ++ o.flagObjective ++ " matches 0")) ++ " run" ++ o.callLead ++ toString n := by
  change "execute if score " ++ o.flag f ++ " matches 0 run function " ++ o.reference n = _
  apply String.toList_inj.mp
  simp [PackOptions.reference, PackOptions.flag, PackOptions.callLead]

theorem text_clear (f : ℕ) :
    (clear f).text o =
      "scoreboard players set #if_" ++ toString f ++ (" " ++ o.flagObjective ++ " 0") := by
  change "scoreboard players set " ++ o.flag f ++ " 0" = _
  apply String.toList_inj.mp
  simp [PackOptions.flag]

theorem text_raise (f : ℕ) (cond : String) :
    (raise f cond).text o = "execute " ++ (cond ++ " run scoreboard players set #if_" ++
      toString f) ++ (" " ++ o.flagObjective ++ " 1") := by
  change "execute " ++ cond ++ " run scoreboard players set " ++ o.flag f ++ " 1" = _
  apply String.toList_inj.mp
  simp [PackOptions.flag]

/-! ### What is read from each kind of line -/

theorem call?_call (head : String) (n : ℕ) :
    o.call? ((call head n).text o) = some (head, n) :=
  PackOptions.call?_eq_some_iff.mpr (text_call head n)

/-- A call by a flag that is up is read as a call, and its head as the test. -/
theorem call?_callIf (f : ℕ) (cond : String) (n : ℕ) :
    ∃ head, o.call? ((callIf f cond n).text o) = some (head, n) ∧
      o.test? head = some (f, some cond) :=
  ⟨_, PackOptions.call?_eq_some_iff.mpr (text_callIf f cond n), PackOptions.test?_eq_up_iff.mpr rfl⟩

/-- A call by a flag that is down is read as a call, and its head as the test. -/
theorem call?_callUnless (f n : ℕ) :
    ∃ head, o.call? ((callUnless f n).text o) = some (head, n) ∧ o.test? head = some (f, none) :=
  ⟨_, PackOptions.call?_eq_some_iff.mpr (text_callUnless f n),
    PackOptions.test?_eq_down_iff.mpr rfl⟩

theorem call?_clear (f : ℕ) : o.call? ((clear f).text o) = none := by
  have htext : (clear f).text o =
      "scoreboard players set " ++ o.flag f ++ " " ++ toString (0 : ℕ) := by
    rw [String.append_assoc]
    rfl
  rw [htext, PackOptions.call?_eq_none]

theorem call?_raise (f : ℕ) (cond : String) : o.call? ((raise f cond).text o) = none := by
  have htext : (raise f cond).text o = "execute " ++ cond ++ " run scoreboard players set " ++
      o.flag f ++ " " ++ toString (1 : ℕ) := by
    rw [String.append_assoc]
    rfl
  rw [htext, PackOptions.call?_eq_none]

theorem set?_clear (f : ℕ) : o.set? ((clear f).text o) = some (f, none) :=
  PackOptions.set?_eq_down_iff.mpr (text_clear f)

theorem set?_raise (f : ℕ) (cond : String) :
    o.set? ((raise f cond).text o) = some (f, some cond) :=
  PackOptions.set?_eq_up_iff.mpr (text_raise f cond)

/-- What is read from a call of a function that there is. -/
theorem read_called {made : ℕ → Bool} {text head : String} {n : ℕ}
    (hcall : o.call? text = some (head, n)) (hmade : made n = true) :
    read o made text = match o.test? head with
      | some (f, some cond) => callIf f cond n
      | some (f, none) => callUnless f n
      | none => call head n := by
  rw [read, hcall, Option.filter_some, if_pos hmade]

/-- **A line is read as what it was written for.** -/
theorem read_text {made : ℕ → Bool} {l : PackLine} (h : l.Plain o made) :
    read o made (l.text o) = l := by
  cases l with
  | command text =>
    change read o made text = command text
    rw [read, h.1]
    dsimp only
    rw [h.2]
  | call head n => rw [read_called (call?_call head n) h.1, h.2]
  | callIf f cond n =>
    obtain ⟨head, hcall, htest⟩ := call?_callIf (o := o) f cond n
    rw [read_called hcall h, htest]
  | callUnless f n =>
    obtain ⟨head, hcall, htest⟩ := call?_callUnless (o := o) f n
    rw [read_called hcall h, htest]
  | clear f =>
    rw [read, call?_clear, Option.filter_none]
    dsimp only
    rw [set?_clear]
  | raise f cond =>
    rw [read, call?_raise, Option.filter_none]
    dsimp only
    rw [set?_raise]

/-- The flag that a line uses. -/
def flag? : PackLine → Option ℕ
  | clear f => some f
  | raise f _ => some f
  | callIf f _ _ => some f
  | callUnless f _ => some f
  | _ => none

/-- A line that is no command calls the function that is read from it. -/
theorem callee?_text {l : PackLine} (h : ∀ text, l ≠ command text) :
    o.callee? (l.text o) = l.callee? := by
  rw [PackOptions.callee?]
  cases l with
  | command text => exact absurd rfl (h text)
  | call head n => exact congrArg (Option.map Prod.snd) (call?_call head n)
  | callIf f cond n =>
    obtain ⟨head, hcall, -⟩ := call?_callIf (o := o) f cond n
    exact congrArg (Option.map Prod.snd) hcall
  | callUnless f n =>
    obtain ⟨head, hcall, -⟩ := call?_callUnless (o := o) f n
    exact congrArg (Option.map Prod.snd) hcall
  | clear f => exact congrArg (Option.map Prod.snd) (call?_clear f)
  | raise f cond => exact congrArg (Option.map Prod.snd) (call?_raise f cond)

/-- A line with a flag uses the flag that is read from it. -/
theorem usedFlag?_text {l : PackLine} {f : ℕ} (h : l.flag? = some f) :
    o.usedFlag? (l.text o) = some f := by
  rw [PackOptions.usedFlag?, ← h]
  cases l with
  | command text => cases h
  | call head n => cases h
  | callIf g cond n =>
    obtain ⟨head, hcall, htest⟩ := call?_callIf (o := o) g cond n
    rw [hcall]
    exact congrArg (Option.map Prod.fst) htest
  | callUnless g n =>
    obtain ⟨head, hcall, htest⟩ := call?_callUnless (o := o) g n
    rw [hcall]
    exact congrArg (Option.map Prod.fst) htest
  | clear g =>
    rw [call?_clear]
    exact congrArg (Option.map Prod.fst) (set?_clear g)
  | raise g cond =>
    rw [call?_raise]
    exact congrArg (Option.map Prod.fst) (set?_raise g cond)

end PackLine

end Statuary
