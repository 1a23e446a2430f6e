import Statuary.Proofs.Assoc
import Statuary.Proofs.Naming.Percent
import Statuary.Proofs.Text.Whole

/-!
# Filling in a template is one scan

A template is cut into **parts** by one scan from left to right: at each place either the longest
key that stands there after a percent sign, or the one character (`Statuary.Template.Scanned`). The
scan looks at the template and at the keys only. So there is one way to cut
(`Statuary.Template.Scanned.unique`), it does not depend on the order of the keys, and **the values
have no part in it**: a filled template is its parts, each place with its value
(`Statuary.Template.format_isScan`). What a value brings in is therefore never read as a place,
alone or with what stands around it.

Which of the keys that fit is the longest is found by going through all of them. It is the same as
the first that fits in any list of them in which no key comes after a shorter one
(`Statuary.Template.longestKey_eq_find?`).

Keys are compared here character by character. Compared byte by byte a key could also end inside a
character of the template; it does not if it is whole, that is if its bytes are no part of a
character with those behind them (`Statuary.Utf8.IsWhole`), as the bytes of every string are. For
such keys the scan of the characters is the scan of the bytes (`Statuary.Template.Scanned.bytes`).
-/

namespace Statuary

/-! ### Sizes of texts that begin alike -/

namespace Utf8

theorem size_eq_length_encode (s : String) : size s = (encode s).length := by
  have hfold : ∀ (cs : List Char) (n : ℕ),
      cs.foldl (fun n c => n + width c) n = n + (cs.flatMap encodeChar).length := by
    intro cs
    induction cs with
    | nil => exact fun n => rfl
    | cons c cs ih =>
      intro n
      rw [List.foldl_cons, ih, List.flatMap_cons, List.length_append, length_encodeChar]
      omega
  rw [size, hfold, Nat.zero_add, encode]

/-- A text that goes on after another one has more bytes. -/
theorem eq_of_prefix_of_size_le {s t : String} (h : s.toList <+: t.toList)
    (hsize : size t ≤ size s) : s = t := by
  obtain ⟨more, hmore⟩ := h
  rw [size_eq_length_encode, size_eq_length_encode, encode, encode, ← hmore, List.flatMap_append,
    List.length_append] at hsize
  cases more with
  | nil =>
    rw [List.append_nil] at hmore
    exact String.toList_inj.mp hmore
  | cons c more =>
    have hpos := List.length_pos_iff.mpr (encodeChar_ne_nil c)
    rw [List.flatMap_cons, List.length_append] at hsize
    omega

/-- Of two texts at the head of a third one the one with fewer bytes is the shorter one. -/
theorem prefix_of_size_le {s t : String} {cs : List Char} (hs : s.toList <+: cs)
    (ht : t.toList <+: cs) (hsize : size s ≤ size t) : s.toList <+: t.toList := by
  rcases List.prefix_or_prefix_of_prefix hs ht with h | h
  · exact h
  · exact eq_of_prefix_of_size_le h hsize ▸ List.prefix_rfl

end Utf8

namespace Template

variable {bindings : Bindings}

/-! ### The longest key -/

/-- Going through bindings ends with one of them, and none has a longer key. -/
theorem exists_foldl_longer (bs : Bindings) (b : String × String) :
    ∃ c ∈ b :: bs, bs.foldl (fun best b => longer best (some b)) (some b) = some c ∧
      ∀ a ∈ b :: bs, Utf8.size a.1 ≤ Utf8.size c.1 := by
  induction bs generalizing b with
  | nil => exact ⟨b, List.mem_cons_self .., rfl, List.forall_mem_singleton.mpr (Nat.le_refl _)⟩
  | cons d bs ih =>
    rw [List.foldl_cons]
    by_cases hlt : Utf8.size b.1 < Utf8.size d.1
    · rw [show longer (some b) (some d) = some d from if_pos hlt]
      obtain ⟨c, hc, hfold, hall⟩ := ih d
      have hd := hall d (List.mem_cons_self ..)
      exact ⟨c, List.mem_cons_of_mem _ hc, hfold, List.forall_mem_cons.mpr ⟨by omega, hall⟩⟩
    · rw [show longer (some b) (some d) = some b from if_neg hlt]
      obtain ⟨c, hc, hfold, hall⟩ := ih b
      obtain ⟨hb, hbs⟩ := List.forall_mem_cons.mp hall
      refine ⟨c, ?_, hfold, List.forall_mem_cons.mpr ⟨hb, List.forall_mem_cons.mpr ⟨by omega, hbs⟩⟩⟩
      rcases List.mem_cons.mp hc with rfl | hc
      · exact List.mem_cons_self ..
      · exact List.mem_cons_of_mem _ (List.mem_cons_of_mem _ hc)

/-- **The longest key**: there is none if no key fits, and else it is one that fits, in whose text
every key that fits begins. -/
theorem longestKey_cases (bindings : Bindings) (cs : List Char) :
    (longestKey bindings cs = none ∧ ∀ b ∈ bindings, ¬ b.1.toList <+: cs) ∨
      ∃ b ∈ bindings, longestKey bindings cs = some b ∧ b.1.toList <+: cs ∧
        ∀ a ∈ bindings, a.1.toList <+: cs → a.1.toList <+: b.1.toList := by
  rw [longestKey]
  have hmem : ∀ b, b ∈ bindings.filter (fun b => (dropLead? b.1.toList cs).isSome) ↔
      b ∈ bindings ∧ b.1.toList <+: cs := fun b => by
    rw [List.mem_filter, isSome_dropLead?_iff]
  cases hfits : bindings.filter fun b => (dropLead? b.1.toList cs).isSome with
  | nil =>
    rw [hfits] at hmem
    exact .inl ⟨rfl, fun b hb hfit => List.not_mem_nil ((hmem b).mpr ⟨hb, hfit⟩)⟩
  | cons b bs =>
    obtain ⟨c, hc, hfold, hall⟩ := exists_foldl_longer bs b
    rw [hfits] at hmem
    obtain ⟨hcmem, hcfit⟩ := (hmem c).mp hc
    refine .inr ⟨c, hcmem, hfold, hcfit, fun a ha hfit => ?_⟩
    exact Utf8.prefix_of_size_le hfit hcfit (hall a ((hmem a).mpr ⟨ha, hfit⟩))

/-- **The longest key is the first that fits**, if no key comes after a shorter one. -/
theorem longestKey_eq_find? (h : (Assoc.keys bindings).Nodup) {sorted : Bindings}
    (hperm : sorted.Perm bindings)
    (hsorted : sorted.Pairwise fun a b => Utf8.size b.1 ≤ Utf8.size a.1) (cs : List Char) :
    longestKey bindings cs = sorted.find? fun b => (dropLead? b.1.toList cs).isSome := by
  rcases longestKey_cases bindings cs with ⟨hnone, hfits⟩ | ⟨b, hb, hsome, hfit, hlongest⟩
  · rw [hnone, eq_comm, List.find?_eq_none]
    intro a ha
    rw [isSome_dropLead?_iff]
    exact hfits a (hperm.mem_iff.mp ha)
  · obtain ⟨before, after, hsplit⟩ := List.append_of_mem (hperm.mem_iff.mpr hb)
    rw [hsome, eq_comm, List.find?_eq_some_iff_append]
    refine ⟨isSome_dropLead?_iff.mpr hfit, before, after, hsplit, fun a ha => ?_⟩
    -- what comes before is not shorter, and would be the same if it fitted
    rw [Bool.not_eq_true', Bool.eq_false_iff, Ne, isSome_dropLead?_iff]
    intro hafit
    have hamem : a ∈ bindings := hperm.mem_iff.mp (hsplit ▸ List.mem_append_left _ ha)
    have hsize : Utf8.size b.1 ≤ Utf8.size a.1 :=
      (List.pairwise_append.mp (hsplit ▸ hsorted)).2.2 a ha b (List.mem_cons_self ..)
    have hkey := Utf8.eq_of_prefix_of_size_le (hlongest a hamem hafit) hsize
    have hnodup : (Assoc.keys sorted).Nodup := (hperm.map Prod.fst).nodup_iff.mpr h
    exact Assoc.ne_of_nodup_append (hsplit ▸ hnodup) ha hkey

/-! ### The parts of a template -/

/-- A part of a template, over the characters or over the bytes. -/
inductive Part (α : Type) where
  /-- A letter that stands for itself. -/
  | letter (a : α)
  /-- The place of a key. -/
  | place (key : List α)

/-- What a part becomes when values are filled in. -/
def Part.filled {α : Type} (value : List α → List α) : Part α → List α
  | letter a => [a]
  | place key => value key

theorem filled_letters {α : Type} (value : List α → List α) (as : List α) :
    (as.map Part.letter).flatMap (Part.filled value) = as := by
  rw [List.flatMap_map]
  exact List.flatMap_singleton' as

/-- **The scan of a template** from left to right. After a percent sign the longest key that stands
there is a place, and the scan goes on after it; where no key stands after a percent sign, a letter
stands for itself. -/
inductive Scanned {α : Type} (percent : α) (keys : List (List α)) :
    List α → List (Part α) → Prop where
  /-- The end of the template. -/
  | nil : Scanned percent keys [] []
  /-- A place. -/
  | place {key rest : List α} {parts : List (Part α)} (hkey : key ∈ keys)
    (hlongest : ∀ k ∈ keys, k <+: key ++ rest → k.length ≤ key.length)
    (more : Scanned percent keys rest parts) :
    Scanned percent keys (percent :: (key ++ rest)) (.place key :: parts)
  /-- A letter. -/
  | letter {a : α} {rest : List α} {parts : List (Part α)}
    (hnone : ∀ k ∈ keys, ¬ percent :: k <+: a :: rest)
    (more : Scanned percent keys rest parts) :
    Scanned percent keys (a :: rest) (.letter a :: parts)

namespace Scanned

variable {α : Type} {percent : α} {keys : List (List α)} {cs : List α}
  {parts parts' : List (Part α)}

theorem not_letter_of_place {key rest : List α} (hkey : key ∈ keys)
    (h : ∀ k ∈ keys, ¬ percent :: k <+: percent :: (key ++ rest)) : False :=
  h key hkey (List.prefix_append (percent :: key) rest)

/-- **There is one scan.** -/
theorem unique (h : Scanned percent keys cs parts) (h' : Scanned percent keys cs parts') :
    parts = parts' := by
  induction h generalizing parts' with
  | nil =>
    cases h'
    rfl
  | @place key rest parts hkey hlongest _ ih =>
    generalize hcs : percent :: (key ++ rest) = cs at h'
    cases h' with
    | nil => cases hcs
    | @place key' rest' _ hkey' hlongest' more' =>
      obtain ⟨-, happend⟩ := List.cons.inj hcs
      -- both keys stand there, and each is at least as long as the other
      have hle := hlongest key' hkey' (happend ▸ List.prefix_append key' rest')
      have hle' := hlongest' key hkey (happend ▸ List.prefix_append key rest)
      obtain ⟨rfl, rfl⟩ := List.append_inj happend (Nat.le_antisymm hle' hle)
      rw [ih more']
    | letter hnone =>
      obtain ⟨rfl, rfl⟩ := List.cons.inj hcs
      exact (not_letter_of_place hkey hnone).elim
  | @letter a rest parts hnone _ ih =>
    generalize hcs : a :: rest = cs at h'
    cases h' with
    | nil => cases hcs
    | place hkey' =>
      obtain ⟨rfl, rfl⟩ := List.cons.inj hcs
      exact (not_letter_of_place hkey' hnone).elim
    | letter _ more' =>
      obtain ⟨rfl, rfl⟩ := List.cons.inj hcs
      rw [ih more']

/-- The scan asks only which keys there are. -/
theorem congr {keys' : List (List α)} (hkeys : ∀ k, k ∈ keys' ↔ k ∈ keys)
    (h : Scanned percent keys cs parts) : Scanned percent keys' cs parts := by
  induction h with
  | nil => exact .nil
  | place hkey hlongest _ ih =>
    exact .place ((hkeys _).mpr hkey) (fun k hk => hlongest k ((hkeys k).mp hk)) ih
  | letter hnone _ ih => exact .letter (fun k hk => hnone k ((hkeys k).mp hk)) ih

/-- A template without places is its letters. -/
theorem eq_letters (h : Scanned percent keys cs parts)
    (hnone : ∀ k ∈ keys, ¬ percent :: k <:+: cs) : parts = cs.map .letter := by
  induction h with
  | nil => rfl
  | @place key rest parts hkey =>
    exact absurd (List.prefix_append (percent :: key) rest).isInfix (hnone key hkey)
  | letter _ _ ih =>
    rw [List.map_cons, ih fun k hk hin => hnone k hk (List.infix_cons hin)]

end Scanned

/-! ### Filling in is the scan -/

/-- The value that is bound to a key, both spelled out. -/
def valueOf {α : Type} [DecidableEq α] (spell : String → List α) (bindings : Bindings)
    (key : List α) : List α :=
  match bindings.find? fun b => spell b.1 = key with
  | some b => spell b.2
  | none => []

theorem valueOf_of_mem {α : Type} [DecidableEq α] {spell : String → List α}
    (h : (Assoc.keys bindings).Nodup)
    (hspell : ∀ k ∈ Assoc.keys bindings, ∀ l ∈ Assoc.keys bindings, spell k = spell l → k = l)
    {b : String × String} (hb : b ∈ bindings) : valueOf spell bindings (spell b.1) = spell b.2 := by
  obtain ⟨before, after, rfl⟩ := List.append_of_mem hb
  have hfind : (before ++ b :: after).find? (fun a => spell a.1 = spell b.1) = some b := by
    rw [List.find?_eq_some_iff_append]
    refine ⟨decide_eq_true rfl, before, after, rfl, fun a ha => ?_⟩
    rw [Bool.not_eq_true', decide_eq_false_iff_not]
    intro hkey
    have ha' : a ∈ before ++ b :: after := List.mem_append_left _ ha
    exact Assoc.ne_of_nodup_append h ha
      (hspell a.1 (List.mem_map_of_mem ha') b.1 (List.mem_map_of_mem hb) hkey)
  rw [valueOf, hfind]

theorem valueOf_toList (h : (Assoc.keys bindings).Nodup) {b : String × String} (hb : b ∈ bindings) :
    valueOf String.toList bindings b.1.toList = b.2.toList :=
  valueOf_of_mem h (fun _ _ _ _ => String.toList_inj.mp) hb

/-- The order of the bindings does not matter. -/
theorem valueOf_perm (h : (Assoc.keys bindings).Nodup) {bindings' : Bindings}
    (hperm : bindings'.Perm bindings) :
    valueOf String.toList bindings' = valueOf String.toList bindings := by
  have h' : (Assoc.keys bindings').Nodup := (hperm.map Prod.fst).nodup_iff.mpr h
  funext key
  by_cases hkey : ∃ b ∈ bindings, b.1.toList = key
  · obtain ⟨b, hb, rfl⟩ := hkey
    rw [valueOf_toList h hb, valueOf_toList h' (hperm.mem_iff.mpr hb)]
  · have hnone {bs : Bindings} (hbs : bs ⊆ bindings) : valueOf String.toList bs key = [] := by
      have hfind : bs.find? (fun b => b.1.toList = key) = none :=
        List.find?_eq_none.mpr fun b hb heq => hkey ⟨b, hbs hb, of_decide_eq_true heq⟩
      rw [valueOf, hfind]
    rw [hnone hperm.subset, hnone (List.Subset.refl _)]

/-- The keys are those of the bindings. -/
theorem mem_keys_iff {k : List Char} :
    k ∈ (Assoc.keys bindings).map String.toList ↔ ∃ b ∈ bindings, b.1.toList = k := by
  rw [Assoc.keys, List.map_map, List.mem_map]
  rfl

/-- **Filling in scans the template once.** -/
theorem exists_scanned (h : (Assoc.keys bindings).Nodup) (cs : List Char) :
    ∃ parts, Scanned '%' ((Assoc.keys bindings).map String.toList) cs parts ∧
      fill bindings 0 cs = parts.flatMap (Part.filled (valueOf String.toList bindings)) := by
  induction hn : cs.length using Nat.strongRecOn generalizing cs with
  | ind n ih =>
    cases cs with
    | nil => exact ⟨[], .nil, rfl⟩
    | cons c cs =>
      rw [List.length_cons] at hn
      have hletter (hnone : ∀ k ∈ (Assoc.keys bindings).map String.toList, ¬ '%' :: k <+: c :: cs) :
          ∃ parts, Scanned '%' ((Assoc.keys bindings).map String.toList) (c :: cs) parts ∧
            c :: fill bindings 0 cs =
              parts.flatMap (Part.filled (valueOf String.toList bindings)) := by
        obtain ⟨parts, hscan, hfill⟩ := ih cs.length (by omega) cs rfl
        exact ⟨_, .letter hnone hscan, by rw [hfill]; rfl⟩
      rw [fill]
      split_ifs with hc
      · subst hc
        rcases longestKey_cases bindings cs with ⟨hnone, hfits⟩ | ⟨b, hb, hsome, hfit, hlongest⟩
        · rw [hnone]
          refine hletter fun k hk hfit => ?_
          obtain ⟨a, ha, rfl⟩ := mem_keys_iff.mp hk
          exact hfits a ha (List.cons_prefix_cons.mp hfit).2
        · obtain ⟨rest, rfl⟩ := hfit
          rw [List.length_append] at hn
          obtain ⟨parts, hscan, hfill⟩ := ih rest.length (by omega) rest rfl
          refine ⟨.place b.1.toList :: parts, .place ?_ ?_ hscan, ?_⟩
          · exact mem_keys_iff.mpr ⟨b, hb, rfl⟩
          · intro k hk hfit
            obtain ⟨a, ha, rfl⟩ := mem_keys_iff.mp hk
            exact (hlongest a ha hfit).length_le
          · rw [hsome, List.flatMap_cons, Part.filled, valueOf_toList h hb, ← hfill]
            dsimp only
            rw [fill_drop, show b.1.length = b.1.toList.length from rfl, List.drop_left]
      · exact hletter fun k _ hfit => hc (List.cons_prefix_cons.mp hfit).1.symm

/-! ### The scan of the bytes -/

/-- The parts of the bytes of a template. -/
def Part.bytes : Part Char → List (Part UInt8)
  | letter c => (Utf8.encodeChar c).map .letter
  | place key => [.place (Utf8.bytes key)]

namespace Scanned

theorem letters {α : Type} {percent : α} {keys : List (List α)} {as rest : List α}
    {parts : List (Part α)} (has : percent ∉ as) (more : Scanned percent keys rest parts) :
    Scanned percent keys (as ++ rest) (as.map .letter ++ parts) := by
  induction as with
  | nil => exact more
  | cons a as ih =>
    obtain ⟨ha, has⟩ := List.ne_and_not_mem_of_not_mem_cons has
    exact .letter (fun k _ hfit => ha (List.cons_prefix_cons.mp hfit).1) (ih has)

/-- The percent sign is in the bytes of no other character. -/
theorem percent_notMem_encodeChar {c : Char} (hc : c ≠ '%') : 0x25 ∉ Utf8.encodeChar c := by
  intro hmem
  rcases Nat.lt_or_ge c.toNat 0x80 with hlt | hge
  · rw [Utf8.encodeChar_of_lt hlt, List.mem_singleton] at hmem
    refine hc (Char.toNat_inj.mp ?_)
    have hbyte := congrArg UInt8.toNat hmem
    rw [UInt8.toNat_ofNat', Nat.mod_eq_of_lt (by omega)] at hbyte
    exact hbyte.symm
  · exact absurd (Utf8.le_of_mem_encodeChar hge hmem) (by decide)

/-- **The scan of the characters is the scan of the bytes**, for keys that are whole. -/
theorem bytes {keys : List (List Char)} {cs : List Char} {parts : List (Part Char)}
    (h : Scanned '%' keys cs parts) (hcs : Utf8.IsDecoded cs) (hkeys : ∀ k ∈ keys, Utf8.IsWhole k) :
    Scanned 0x25 (keys.map Utf8.bytes) (Utf8.bytes cs) (parts.flatMap Part.bytes) := by
  induction h with
  | nil => exact .nil
  | @place key rest parts hkey hlongest _ ih =>
    have happend := (Utf8.isDecoded_cons.mp hcs).2
    have hbytes : Utf8.bytes (key ++ rest) = Utf8.bytes key ++ Utf8.bytes rest :=
      List.flatMap_append
    rw [List.flatMap_cons, Part.bytes, Utf8.bytes, List.flatMap_cons, ← Utf8.bytes, hbytes]
    refine .place (List.mem_map_of_mem hkey) (fun l hl hfit => ?_) (ih happend.of_append_right)
    obtain ⟨k, hk, rfl⟩ := List.mem_map.mp hl
    rw [← hbytes] at hfit
    -- a key that fits in the bytes fits in the characters, and is the beginning of the longest one
    have hchars := (hkeys k hk).isPrefix_of_bytes happend hfit
    obtain ⟨more, rfl⟩ := List.prefix_of_prefix_length_le hchars (List.prefix_append key rest)
      (hlongest k hk hchars)
    rw [Utf8.bytes, Utf8.bytes, List.flatMap_append, List.length_append]
    exact Nat.le_add_right _ _
  | @letter c rest parts hnone _ ih =>
    have hrest := (Utf8.isDecoded_cons.mp hcs).2
    rw [List.flatMap_cons, Part.bytes, Utf8.bytes, List.flatMap_cons, ← Utf8.bytes]
    by_cases hc : c = '%'
    · subst hc
      refine .letter (fun l hl hfit => ?_) (ih hrest)
      obtain ⟨k, hk, rfl⟩ := List.mem_map.mp hl
      have hbytes := (List.cons_prefix_cons.mp hfit).2
      exact hnone k hk (List.cons_prefix_cons.mpr
        ⟨rfl, (hkeys k hk).isPrefix_of_bytes hrest hbytes⟩)
    · exact letters (percent_notMem_encodeChar hc) (ih hrest)

/-- **What is filled in is the same** in characters and in bytes. -/
theorem encode_filled {cs : List Char} {parts : List (Part Char)}
    (h : Scanned '%' ((Assoc.keys bindings).map String.toList) cs parts)
    (hnodup : (Assoc.keys bindings).Nodup)
    (hkeys : ∀ k ∈ Assoc.keys bindings, Utf8.IsWhole k.toList) :
    Utf8.bytes (parts.flatMap (Part.filled (valueOf String.toList bindings))) =
      (parts.flatMap Part.bytes).flatMap (Part.filled (valueOf Utf8.encode bindings)) := by
  induction h with
  | nil => rfl
  | place hkey _ _ ih =>
    obtain ⟨b, hb, rfl⟩ := mem_keys_iff.mp hkey
    have hspell : ∀ k ∈ Assoc.keys bindings, ∀ l ∈ Assoc.keys bindings,
        Utf8.encode k = Utf8.encode l → k = l := fun k hk l hl hkl =>
      String.toList_inj.mp ((hkeys k hk).eq_of_bytes (hkeys l hl) hkl)
    rw [List.flatMap_cons, Utf8.bytes, List.flatMap_append, ← Utf8.bytes, ← Utf8.bytes, ih,
      Part.filled, valueOf_toList hnodup hb, List.flatMap_cons, Part.bytes, List.singleton_append,
      List.flatMap_cons]
    exact congrArg (· ++ _) (valueOf_of_mem hnodup hspell hb).symm
  | @letter c _ _ _ _ ih =>
    rw [List.flatMap_cons, Part.filled, List.singleton_append, Utf8.bytes, List.flatMap_cons,
      ← Utf8.bytes, ih, List.flatMap_cons, List.flatMap_append, Part.bytes, filled_letters]

end Scanned

/-! ### Filling in a template -/

/-- Bindings of the same keys fill in the same parts. -/
theorem toList_format (h : (Assoc.keys bindings).Nodup) {template : String}
    {parts : List (Part Char)}
    (hscan : Scanned '%' ((Assoc.keys bindings).map String.toList) template.toList parts)
    {bindings' : Bindings} (hkeys : (Assoc.keys bindings').Perm (Assoc.keys bindings)) :
    Scanned '%' ((Assoc.keys bindings').map String.toList) template.toList parts ∧
      (format template bindings').toList =
        parts.flatMap (Part.filled (valueOf String.toList bindings')) := by
  have hscan' : Scanned '%' ((Assoc.keys bindings').map String.toList) template.toList parts :=
    hscan.congr fun k => (hkeys.map String.toList).mem_iff
  obtain ⟨parts', hparts, hfill⟩ := exists_scanned (hkeys.nodup_iff.mpr h) template.toList
  obtain rfl := hscan'.unique hparts
  exact ⟨hscan', by rw [format, String.toList_ofList, hfill]⟩

/-- **Filling in a template is one scan**, for every template and every map of bindings.

* The template is cut into parts, in one way only; the keys decide which.
* Whatever values the keys are bound to, and in whatever order, the result is the parts with these
  values in their places.
* The same bindings in another order give the same text.
* The longest key is the first that fits, if the keys are tried from the longest to the shortest.
* A template in which no key stands after a percent sign stays as it is.
* If the keys are whole, as all texts from outside are, the scan of the characters is that of the
  bytes, and the bytes of the result are the bytes of the parts. -/
theorem format_isScan (template : String) (h : (Assoc.keys bindings).Nodup) :
    ∃ parts : List (Part Char),
      (∀ ps, Scanned '%' ((Assoc.keys bindings).map String.toList) template.toList ps ↔
        ps = parts) ∧
      (∀ bindings' : Bindings, (Assoc.keys bindings').Perm (Assoc.keys bindings) →
        (format template bindings').toList =
          parts.flatMap (Part.filled (valueOf String.toList bindings'))) ∧
      (∀ bindings' : Bindings, bindings'.Perm bindings →
        format template bindings' = format template bindings) ∧
      (∀ sorted : Bindings, sorted.Perm bindings →
        (sorted.Pairwise fun a b => Utf8.size b.1 ≤ Utf8.size a.1) → ∀ cs,
          longestKey bindings cs = sorted.find? fun b => (dropLead? b.1.toList cs).isSome) ∧
      ((∀ k ∈ Assoc.keys bindings, ¬ '%' :: k.toList <:+: template.toList) →
        format template bindings = template) ∧
      (Utf8.IsText template → (∀ k ∈ Assoc.keys bindings, Utf8.IsWhole k.toList) →
        (∀ ps, Scanned 0x25 ((Assoc.keys bindings).map Utf8.encode) (Utf8.encode template) ps ↔
          ps = parts.flatMap Part.bytes) ∧
        ∀ bindings' : Bindings, (Assoc.keys bindings').Perm (Assoc.keys bindings) →
          Utf8.encode (format template bindings') =
            (parts.flatMap Part.bytes).flatMap (Part.filled (valueOf Utf8.encode bindings'))) := by
  obtain ⟨parts, hscan, -⟩ := exists_scanned h template.toList
  refine ⟨parts, fun ps => ⟨fun hps => hps.unique hscan, fun hps => hps ▸ hscan⟩,
    fun bindings' hkeys => (toList_format h hscan hkeys).2, fun bindings' hperm => ?_,
    fun sorted => longestKey_eq_find? h, fun hnone => ?_, fun htext hwhole => ?_⟩
  · rw [← String.toList_inj, (toList_format h hscan (hperm.map Prod.fst)).2,
      (toList_format h hscan (List.Perm.refl _)).2, valueOf_perm h hperm]
  · rw [← String.toList_inj, (toList_format h hscan (List.Perm.refl _)).2,
      hscan.eq_letters fun k hk => ?_, filled_letters]
    obtain ⟨key, hkey, rfl⟩ := List.mem_map.mp hk
    exact hnone key hkey
  · have hdecoded : Utf8.IsDecoded template.toList := by
      rw [Utf8.IsText, Utf8.decode, Utf8.encode] at htext
      rw [Utf8.IsDecoded, ← String.toList_ofList (l := Utf8.decodeFrom 0 _), htext]
    have hkeys : ∀ k ∈ (Assoc.keys bindings).map String.toList, Utf8.IsWhole k :=
      List.forall_mem_map.mpr hwhole
    have hbytes := hscan.bytes hdecoded hkeys
    rw [List.map_map] at hbytes
    refine ⟨fun ps => ⟨fun hps => hps.unique hbytes, fun hps => hps ▸ hbytes⟩,
      fun bindings' hperm => ?_⟩
    obtain ⟨hscan', hformat⟩ := toList_format h hscan hperm
    rw [Utf8.encode, hformat]
    exact hscan'.encode_filled (hperm.nodup_iff.mpr h) fun k hk => hwhole k (hperm.mem_iff.mp hk)

/-- One key is the beginning of the other, a value is a percent sign before the text of a key, and
another one holds a place. -/
theorem format_isScan_keyInKey :
    (Assoc.keys [("projet", "%projetá"), ("projetá", "%")]).Nodup ∧
      (∀ bindings' : Bindings, bindings'.Perm [("projet", "%projetá"), ("projetá", "%")] →
        format "%projetáprojet %projets %é" bindings' = "%projet %projetás %é") ∧
      ∃ ps, ∀ qs, Scanned 0x25 [Utf8.encode "projet", Utf8.encode "projetá"]
        (Utf8.encode "%projetáprojet %projets %é") qs ↔ qs = ps := by
  have hkeys : (Assoc.keys [("projet", "%projetá"), ("projetá", "%")]).Nodup := by decide
  obtain ⟨parts, -, -, hperm, -, -, hbytes⟩ := format_isScan "%projetáprojet %projets %é" hkeys
  have hformat : format "%projetáprojet %projets %é" [("projet", "%projetá"), ("projetá", "%")] =
      "%projet %projetás %é" := by decide +kernel
  have hplain : ∀ s ∈ ["projet", "projetá", "%projetáprojet %projets %é"],
      s.toList.any Utf8.isCarrier = false := by decide +kernel
  have houtside : ∀ s ∈ ["projet", "projetá", "%projetáprojet %projets %é"],
      Utf8.IsText s ∧ Utf8.IsWhole s.toList := fun s hs => by
    rw [← Utf8.ofString_of_any (hplain s hs)]
    exact ⟨Utf8.isText_ofString s, Utf8.isWhole_ofString s⟩
  simp only [List.forall_mem_cons] at houtside
  obtain ⟨hkey, hlong, htext, -⟩ := houtside
  refine ⟨hkeys, fun bindings' h => (hperm bindings' h).trans hformat, _, (hbytes htext.1 ?_).1⟩
  exact List.forall_mem_cons.mpr ⟨hkey.2, List.forall_mem_singleton.mpr hlong.2⟩

end Template

end Statuary
