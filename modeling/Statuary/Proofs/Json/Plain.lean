import Mathlib.Data.List.Basic
import Mathlib.Data.Nat.Notation
import Statuary.Json.Fields
import Statuary.Json.Writer
import Statuary.Proofs.Text.Bytes

/-!
# Plain values are read as they are written

A text of plain characters stands in a JSON text as it is (`Statuary.Json.toList_ofText`), and
nothing in it looks like the end of anything. So a text, and any other value that is read whole
wherever it stands (`Statuary.Json.IsRead`), is a member that is found again: **an object of such
members is read as these members**, in their order (`Statuary.Json.readMessage?_ofMembers`).
-/

namespace Statuary.Json

variable {mode : Reader}

/-! ### Plain texts -/

/-- A character that stands for itself. -/
def IsPlainChar (c : Char) : Prop :=
  0x20 ≤ c.toNat ∧ c.toNat < 0x80 ∧ c ∉ ['"', '\\', '<', '>', '&']

instance : DecidablePred IsPlainChar :=
  fun c => inferInstanceAs (Decidable (0x20 ≤ c.toNat ∧ c.toNat < 0x80 ∧ c ∉ _))

/-- A text that stands for itself. -/
def IsPlainText (s : String) : Prop :=
  ∀ c ∈ s.toList, IsPlainChar c

instance : DecidablePred IsPlainText :=
  fun s => List.decidableBAll IsPlainChar s.toList

theorem IsPlainChar.written {c : Char} (h : IsPlainChar c) :
    escapeChar c = [c] ∧ Utf8.isCarrier c = false := by
  have hall : ∀ c : Char, c.toNat < 0x80 → IsPlainChar c →
      escapeChar c = [c] ∧ Utf8.isCarrier c = false :=
    Utf8.forall_char_lt (by decide)
  exact hall c h.2.1 h

/-- A plain character neither ends a text nor begins an escape. -/
theorem IsPlainChar.ne {c : Char} (h : IsPlainChar c) : c ≠ '"' ∧ c ≠ '\\' :=
  ⟨fun he => h.2.2 (by simp [he]), fun he => h.2.2 (by simp [he])⟩

theorem toList_ofText {s : String} (h : IsPlainText s) :
    (ofText s).toList = '"' :: (s.toList ++ ['"']) := by
  have hany : s.any Utf8.isCarrier = false := by
    rw [Utf8.any_isCarrier, List.any_eq_false]
    exact fun c hc => by simp [(h c hc).written.2]
  have hescape : s.toList.flatMap escapeChar = s.toList := by
    conv_rhs => rw [← List.flatMap_singleton' s.toList]
    exact List.flatMap_congr fun c hc => (h c hc).written.1
  rw [ofText, hany]
  simp [hescape]

/-! ### Reading plain texts -/

theorem readPieces_plain {cs : List Char} (h : ∀ c ∈ cs, IsPlainChar c) (rest : List Char) :
    readPieces (cs ++ '"' :: rest) = some (cs.map .char, rest) := by
  induction cs with
  | nil => rfl
  | cons c cs ih =>
    obtain ⟨hc, hcs⟩ := List.forall_mem_cons.mp h
    obtain ⟨hquote, hslash⟩ := hc.ne
    have hcontrol : ¬ c.toNat < 0x20 := Nat.not_lt.mpr hc.1
    rw [List.cons_append, readPieces.eq_def]
    split
    · cases ‹_ :: _ = []›
    · rename_i heq
      exact absurd (List.cons.inj heq).1 hquote
    · rename_i heq
      exact absurd (List.cons.inj heq).1 hslash
    · rename_i heq
      exact absurd (List.cons.inj heq).1 hslash
    · rename_i heq
      obtain ⟨rfl, rfl⟩ := List.cons.inj heq
      simp [hcontrol, hslash, ih hcs]

theorem joinPieces_chars (cs : List Char) : joinPieces mode none (cs.map .char) = cs := by
  induction cs with
  | nil => rfl
  | cons c cs ih =>
    rw [List.map_cons, joinPieces, ih]
    rfl

/-- Plain characters are handed on as they are. -/
theorem handOn_plain {cs : List Char} (h : ∀ c ∈ cs, IsPlainChar c) : handOn mode cs = cs := by
  cases mode with
  | paired => rfl
  | alone =>
    rw [handOn]
    induction cs with
    | nil => rfl
    | cons c cs ih =>
      obtain ⟨hc, hcs⟩ := List.forall_mem_cons.mp h
      have hnone : Utf8.carried? c = none := by simpa [Utf8.isCarrier] using hc.written.2
      rw [Utf8.spellFrom, hnone]
      dsimp only
      rw [ih hcs, Utf8.ofChar, hc.written.2]
      rfl

/-- A plain text is read to its closing quote. -/
theorem readText_plain {cs : List Char} (h : ∀ c ∈ cs, IsPlainChar c) (rest : List Char) :
    readText mode (cs ++ '"' :: rest) = some (cs, rest) := by
  rw [readText, readPieces_plain h, Option.map_some]
  dsimp only
  rw [joinPieces_chars, handOn_plain h]

theorem deepest_plain {cs : List Char} (h : ∀ c ∈ cs, IsPlainChar c) (depth most : ℕ)
    (rest : List Char) :
    deepest depth most true (cs ++ '"' :: rest) = deepest depth most false rest := by
  induction cs with
  | nil =>
    rw [List.nil_append, deepest.eq_def]
    simp
  | cons c cs ih =>
    obtain ⟨hc, hcs⟩ := List.forall_mem_cons.mp h
    obtain ⟨hquote, hslash⟩ := hc.ne
    rw [List.cons_append, deepest.eq_def]
    simp [hquote, hslash, ih hcs]

/-! ### Values -/

/-- A character that ends a member of an object. -/
def IsMemberEnd (c : Char) : Prop :=
  c = ',' ∨ c = '\x7d'

/-- **A text that is read as a value** wherever a member of an object ends with it, and that has no
other value inside. -/
structure IsRead (mode : Reader) (text : String) (v : Json) : Prop where
  /-- It does not begin with a blank. -/
  head : ∃ c cs, text.toList = c :: cs ∧ isGap c = false
  /-- It is read whole. -/
  read : ∀ fuel c rest, IsMemberEnd c →
    readValue mode (fuel + 1) (text.toList ++ c :: rest) = some (v, c :: rest)
  /-- Nothing is inside it. -/
  shallow : ∀ depth most rest,
    deepest depth most false (text.toList ++ rest) = deepest depth most false rest

theorem skipGap_cons {c : Char} (h : isGap c = false) (cs : List Char) :
    skipGap (c :: cs) = c :: cs :=
  List.dropWhile_cons_of_neg (by simp [h])

theorem IsMemberEnd.isGap_eq_false {c : Char} (h : IsMemberEnd c) : isGap c = false := by
  rcases h with rfl | rfl <;> rfl

theorem IsRead.skipGap_append {text : String} {v : Json} (h : IsRead mode text v)
    (rest : List Char) : skipGap (text.toList ++ rest) = text.toList ++ rest := by
  obtain ⟨c, cs, htext, hgap⟩ := h.head
  rw [htext, List.cons_append, skipGap_cons hgap]

theorem isRead_ofText {s : String} (h : IsPlainText s) : IsRead mode (ofText s) (.string s) where
  head := ⟨'"', s.toList ++ ['"'], toList_ofText h, rfl⟩
  read fuel c rest _ := by
    rw [toList_ofText h, List.cons_append, List.append_assoc, List.singleton_append, readValue]
    dsimp only
    rw [readText_plain h, Option.map_some, String.ofList_toList]
  shallow depth most rest := by
    rw [toList_ofText h, List.cons_append, List.append_assoc, List.singleton_append, deepest.eq_def]
    simp [deepest_plain h]

/-! ### Objects -/

/-- The text of members. -/
def memberTexts (ms : List (String × String × Json)) : List (String × String) :=
  ms.map fun m => (m.1, m.2.1)

/-- Members and what they are read as. -/
def memberValues (ms : List (String × String × Json)) : List (String × Json) :=
  ms.map fun m => (m.1, m.2.2)

/-- The text of one member. -/
def memberText (m : String × String) : String :=
  ofText m.1 ++ ":" ++ m.2

/-- A member up to its end is read, and then what follows. -/
theorem readMembers_member {fuel : ℕ} {name text : String} {v : Json} (hname : IsPlainText name)
    (hv : IsRead mode text v) {c : Char} (hc : IsMemberEnd c) (rest : List Char) :
    readMembers mode (fuel + 2) ((memberText (name, text)).toList ++ c :: rest) =
      if c = ',' then
        (readMembers mode (fuel + 1) rest).map fun (ms, r) => ((name, v) :: ms, r)
      else some ([(name, v)], rest) := by
  have hlist : (memberText (name, text)).toList ++ c :: rest =
      '"' :: (name.toList ++ '"' :: ':' :: (text.toList ++ c :: rest)) := by
    rw [memberText, String.toList_append, String.toList_append, toList_ofText hname]
    simp
  rw [hlist, readMembers, skipGap_cons rfl]
  simp only [readText_plain hname, Option.bind_eq_bind, Option.bind_some,
    skipGap_cons (show isGap ':' = false from rfl),
    hv.skipGap_append, hv.read fuel c rest hc, skipGap_cons hc.isGap_eq_false, String.ofList_toList]
  rcases hc with rfl | rfl <;> rfl

/-- The text of all members. -/
def joinedTexts (ms : List (String × String × Json)) : String :=
  ",".intercalate ((memberTexts ms).map memberText)

theorem ofMembers_eq (ms : List (String × String × Json)) :
    (ofMembers (memberTexts ms)).toList = '\x7b' :: ((joinedTexts ms).toList ++ ['\x7d']) := by
  rw [ofMembers, String.toList_append, String.toList_append]
  rfl

theorem joinedTexts_cons_cons (m n : String × String × Json) (ms : List (String × String × Json)) :
    (joinedTexts (m :: n :: ms)).toList =
      (memberText (m.1, m.2.1)).toList ++ ',' :: (joinedTexts (n :: ms)).toList := by
  rw [joinedTexts, memberTexts, List.map_cons, List.map_cons, List.map_cons, List.map_cons,
    String.intercalate_cons_cons, String.toList_append, String.toList_append, List.append_assoc]
  rfl

section Members

variable {ms : List (String × String × Json)}

/-- **Members are read in their order.** -/
theorem readMembers_joinedTexts (hne : ms ≠ [])
    (h : ∀ m ∈ ms, IsPlainText m.1 ∧ IsRead mode m.2.1 m.2.2) {fuel : ℕ} (hfuel : ms.length < fuel)
    (rest : List Char) : readMembers mode fuel ((joinedTexts ms).toList ++ '\x7d' :: rest) =
      some (memberValues ms, rest) := by
  induction ms generalizing fuel with
  | nil => exact absurd rfl hne
  | cons m ms ih =>
    obtain ⟨⟨hname, hvalue⟩, hrest⟩ := List.forall_mem_cons.mp h
    obtain ⟨fuel, rfl⟩ : ∃ k, fuel = k + 2 := ⟨fuel - 2, by
      rw [List.length_cons] at hfuel
      omega⟩
    cases ms with
    | nil => exact readMembers_member hname hvalue (.inr rfl) rest
    | cons n ms =>
      rw [joinedTexts_cons_cons, List.append_assoc, List.cons_append,
        readMembers_member hname hvalue (.inl rfl), if_pos rfl,
        ih (List.cons_ne_nil _ _) hrest (by simpa using hfuel)]
      rfl

theorem deepest_joinedTexts (h : ∀ m ∈ ms, IsPlainText m.1 ∧ IsRead mode m.2.1 m.2.2)
    (depth most : ℕ) (rest : List Char) :
    deepest depth most false ((joinedTexts ms).toList ++ rest) = deepest depth most false rest := by
  have hmember : ∀ m : String × String × Json, IsPlainText m.1 → IsRead mode m.2.1 m.2.2 →
      ∀ rest, deepest depth most false ((memberText (m.1, m.2.1)).toList ++ rest) =
        deepest depth most false rest := by
    intro m hname hvalue rest
    have hlist : (memberText (m.1, m.2.1)).toList ++ rest =
        (ofText m.1).toList ++ ':' :: (m.2.1.toList ++ rest) := by
      rw [memberText, String.toList_append, String.toList_append]
      simp
    have hcolon : ∀ cs, deepest depth most false (':' :: cs) = deepest depth most false cs := by
      intro cs
      rw [deepest.eq_def]
      simp
    rw [hlist, (isRead_ofText hname : IsRead mode _ _).shallow, hcolon, hvalue.shallow]
  induction ms with
  | nil => rfl
  | cons m ms ih =>
    obtain ⟨⟨hname, hvalue⟩, hrest⟩ := List.forall_mem_cons.mp h
    cases ms with
    | nil => exact hmember m hname hvalue rest
    | cons n ms =>
      have hcomma : ∀ cs, deepest depth most false (',' :: cs) = deepest depth most false cs := by
        intro cs
        rw [deepest.eq_def]
        simp
      rw [joinedTexts_cons_cons, List.append_assoc, hmember m hname hvalue, List.cons_append,
        hcomma,
        ih hrest]

theorem length_le_joinedTexts (ms : List (String × String × Json)) :
    ms.length ≤ (joinedTexts ms).toList.length := by
  induction ms with
  | nil => exact Nat.zero_le _
  | cons m ms ih =>
    cases ms with
    | nil =>
      have hcolon : (joinedTexts [m]).toList = (ofText m.1).toList ++ ':' :: m.2.1.toList := by
        rw [joinedTexts, memberTexts, List.map_singleton, List.map_singleton,
          String.intercalate_singleton, memberText, String.toList_append, String.toList_append]
        simp
      rw [hcolon, List.length_append]
      simp only [List.length_cons, List.length_nil]
      omega
    | cons n ms =>
      rw [joinedTexts_cons_cons, List.length_append]
      simp only [List.length_cons] at ih ⊢
      omega

/-- Members begin with the quote of the first name. -/
theorem exists_joinedTexts (hne : ms ≠ []) (h : ∀ m ∈ ms, IsPlainText m.1) :
    ∃ cs, (joinedTexts ms).toList = '"' :: cs := by
  cases ms with
  | nil => exact absurd rfl hne
  | cons m ms =>
    have hname := toList_ofText (List.forall_mem_cons.mp h).1
    have hmember : (memberText (m.1, m.2.1)).toList =
        '"' :: (m.1.toList ++ ['"'] ++ ':' :: m.2.1.toList) := by
      rw [memberText, String.toList_append, String.toList_append, hname]
      simp
    cases ms with
    | nil => exact ⟨_, hmember⟩
    | cons n ms =>
      rw [joinedTexts_cons_cons, hmember]
      exact ⟨_, rfl⟩

/-- **An object of members is read as these members.** -/
theorem readMessage?_ofMembers (hne : ms ≠ [])
    (h : ∀ m ∈ ms, IsPlainText m.1 ∧ IsRead .alone m.2.1 m.2.2) :
    (readMessage? (ofMembers (memberTexts ms))).bind message? = some (memberValues ms) := by
  obtain ⟨cs, hcs⟩ := exists_joinedTexts hne fun m hm => (h m hm).1
  have hdeepest : deepest 0 0 false (ofMembers (memberTexts ms)).toList = 1 := by
    have hopen : deepest 0 0 false ('\x7b' :: ((joinedTexts ms).toList ++ ['\x7d'])) =
        deepest 1 1 false ((joinedTexts ms).toList ++ ['\x7d']) := by
      rw [deepest.eq_def]
      rfl
    rw [ofMembers_eq, hopen, deepest_joinedTexts h]
    rfl
  have hgap : skipGap ((joinedTexts ms).toList ++ ['\x7d']) =
      (joinedTexts ms).toList ++ ['\x7d'] := by
    rw [hcs]
    exact skipGap_cons rfl _
  have hfuel : ms.length < 2 * (ofMembers (memberTexts ms)).toList.length + 1 := by
    have hlength := length_le_joinedTexts ms
    rw [ofMembers_eq, List.length_cons, List.length_append]
    omega
  have hvalue : readValue .alone (2 * (ofMembers (memberTexts ms)).toList.length + 2)
      (skipGap (ofMembers (memberTexts ms)).toList) =
        some (.object (memberValues ms)
          (sourceBefore (ofMembers (memberTexts ms)).toList []), []) := by
    have hmembers := readMembers_joinedTexts hne h hfuel []
    rw [ofMembers_eq] at hmembers ⊢
    rw [skipGap_cons rfl, readValue]
    simp only [hgap]
    rw [hcs] at hmembers ⊢
    simp only [List.cons_append] at hmembers ⊢
    split
    · rename_i heq
      cases (List.cons.inj heq).1
    · rw [hmembers]
      rfl
  rw [readMessage?, if_neg (by rw [hdeepest]; decide), read?, hvalue]
  rfl

/-- No control character is in the text of members if none is in that of a value. -/
theorem notMem_ofMembers {c : Char} (hc : c.toNat < 0x20)
    (h : ∀ m ∈ ms, IsPlainText m.1 ∧ c ∉ m.2.1.toList) :
    c ∉ (ofMembers (memberTexts ms)).toList := by
  have hne : ∀ d : Char, 0x20 ≤ d.toNat → c ≠ d := fun d hd he => by
    rw [he] at hc
    omega
  have hmember : ∀ m ∈ ms, c ∉ (memberText (m.1, m.2.1)).toList := by
    intro m hm
    obtain ⟨hname, hvalue⟩ := h m hm
    have hnotMem : c ∉ m.1.toList := fun hmem => hne c (hname c hmem).1 rfl
    rw [memberText, String.toList_append, String.toList_append, toList_ofText hname]
    simp [hne, hnotMem, hvalue]
  have hjoined : c ∉ (joinedTexts ms).toList := by
    clear h
    induction ms with
    | nil => exact List.not_mem_nil
    | cons m ms ih =>
      obtain ⟨hm, hrest⟩ := List.forall_mem_cons.mp hmember
      cases ms with
      | nil => exact hm
      | cons n ms =>
        rw [joinedTexts_cons_cons, List.mem_append, List.mem_cons]
        exact not_or.mpr ⟨hm, not_or.mpr ⟨hne ',' (by decide), ih hrest⟩⟩
  rw [ofMembers_eq]
  simp [hne, hjoined]

end Members

end Statuary.Json
