import Statuary.Proofs.Program.Lines
import Statuary.Proofs.Program.Linking

/-!
# Programs are read back from their source text

The source text of a program is read line by line, and what is open is kept on a stack: the program
itself, the directories, the function and the inner bodies around the line (`Statuary.Frame`). The
height of the stack says how many tabulators a line has, and **a line that ends something stands one
level further out** than those inside. So a command may be any text, a closing brace too, without
being taken for the end of the body it is in.

What can be confused is what a line opens. A command with an opening brace at its end reads like the
head of a block, and a block whose head is `execute (…)` like a branch. Programs without either, and
without a line feed in a text or a name, are **legible** (`Statuary.Program.IsLegible`). Such a
program is read back from its source text, so no other legible program has the same text, but for a
group without a list of members, which is written like one with an empty list
(`Statuary.Program.read_source`).

The induction is on the program. What is carried along is the whole stack: reading the lines of a
body leaves every frame as it was but the innermost, into which the statements have been put
(`Statuary.foldlM_bodyLines`), and the same holds of members (`Statuary.foldlM_itemsLines`).
-/

namespace Statuary

/-! ### Indented lines -/

theorem indentLine_zero (s : String) : indentLine 0 s = s := by
  rw [indentLine, List.replicate_zero]
  exact String.empty_append

theorem indentLine_succ (depth : ℕ) (s : String) :
    indentLine (depth + 1) s = indentLine depth ("\t" ++ s) := by
  apply String.toList_inj.mp
  simp [indentLine, List.replicate_succ']

theorem indentLine_inj {depth : ℕ} {s t : String} :
    indentLine depth s = indentLine depth t ↔ s = t :=
  String.append_right_inj _

/-- A line further in is no line that begins with a sign here. -/
theorem indentLine_succ_ne (depth : ℕ) (s : String) {t : String}
    (h : t.toList.head? ≠ some '\t') : indentLine (depth + 1) s ≠ indentLine depth t := by
  rw [indentLine_succ, ne_eq, indentLine_inj]
  rintro rfl
  refine h ?_
  rw [String.toList_append]
  rfl

/-! ### The reader -/

/-- What a line can open, and the program itself. -/
inductive Opening where
  /-- The program. -/
  | program
  /-- A directory. -/
  | dir (name : String)
  /-- A group. -/
  | group (name : String)
  /-- A function. -/
  | function (name : String)
  /-- The body of a block. -/
  | block (head : String)
  /-- The first body of a branch. -/
  | yes (cond : String)
  /-- The second body of a branch, after the first one. -/
  | no (cond : String) (yes : List Statement)

/-- Something that is open, with what has been read inside. -/
structure Frame where
  /-- What is open. -/
  opening : Opening
  /-- The comment lines. -/
  header : List String := []
  /-- The members. -/
  items : List Item := []
  /-- The members of a group. -/
  values : List String := []
  /-- The statements. -/
  body : List Statement := []

/-- What is inside is a body. -/
def Opening.isBody : Opening → Bool
  | program | dir _ | group _ => false
  | function _ | block _ | yes _ | no .. => true

/-- What is inside are members. -/
def Opening.isDir : Opening → Bool
  | program | dir _ => true
  | group _ | function _ | block _ | yes _ | no .. => false

namespace Frame

/-- Puts statements into a frame. -/
def addBody (f : Frame) (body : List Statement) : Frame :=
  { f with body := f.body ++ body }

/-- Puts members into a frame. -/
def addItems (f : Frame) (items : List Item) : Frame :=
  { f with items := f.items ++ items }

/-- Puts what has been read inside a frame into the frame around it. -/
def endIn (f outer : Frame) : Frame :=
  match f.opening with
  | .program => outer
  | .dir name => outer.addItems [.dir name f.items]
  | .group name => outer.addItems [.group name (some f.values)]
  | .function name => outer.addItems [.function name f.body]
  | .block head => outer.addBody [.block head f.body]
  | .yes cond => outer.addBody [.branch cond f.body []]
  | .no cond yes => outer.addBody [.branch cond yes f.body]

/-- The second body of the branch whose first one is open. -/
def otherwise? (f : Frame) : Option Frame :=
  match f.opening with
  | .yes cond => some { opening := .no cond f.body }
  | _ => none

/-- What the text of a line opens among members. -/
def ofItem? (text : String) : Option Opening :=
  ((between? "function " " \x7b" text).map .function).or <|
    ((between? "dir " " \x7b" text).map .dir).or <|
      (between? "entities " " \x7b" text).map .group

/-- What the text of a line opens in a body. -/
def ofStatement? (text : String) : Option Opening :=
  ((between? "execute (" ") \x7b" text).map .yes).or <| (between? "" " \x7b" text).map .block

/-- The frames that are open after a line inside a frame. -/
def read (f : Frame) (text : String) : Option (List Frame) :=
  match f.opening with
  | .program =>
    match ofItem? text with
    | some o => some [{ opening := o }, f]
    | none => (between? "#" "" text).map fun comment => [{ f with header := f.header ++ [comment] }]
  | .dir _ => (ofItem? text).map fun o => [{ opening := o }, f]
  | .group _ => some [{ f with values := f.values ++ [text] }]
  | .function _ | .block _ | .yes _ | .no .. =>
    match ofStatement? text with
    | some o => some [{ opening := o }, f]
    | none => some [f.addBody [.line text]]

/-- The frames that are open after a line that ends the innermost one. -/
def leave? (line : String) : List Frame → Option (List Frame)
  | f :: g :: outer =>
    if line = indentLine outer.length "\x7d" then some (f.endIn g :: outer)
    else if line = indentLine outer.length "\x7d else \x7b" then
      f.otherwise?.map fun o => o :: g :: outer
    else none
  | _ => none

/-- **Reading a line**, given the frames that are open, the innermost one first. -/
def step : List Frame → String → Option (List Frame)
  | [], _ => none
  | f :: outer, line =>
    (leave? line (f :: outer)).or <|
      (between? (indentLine outer.length "") "" line).bind fun text =>
        (f.read text).map (· ++ outer)

end Frame

/-- **Reading a source text.** -/
def Program.read (source : String) : Option Program :=
  match (cutAt '\n' source).dropLast.foldlM Frame.step [{ opening := .program }] with
  | some [f] => some ⟨f.header, f.items⟩
  | _ => none

/-! ### Legible programs -/

/-- A command does not look like the head of a block, nor the head of a block like a branch. -/
def Statement.IsLegible : Statement → Prop
  | .line command => ¬ " \x7b".toList <:+ command.toList
  | .block head _ => ¬ ("execute (".toList <+: head.toList ∧ ")".toList <:+ head.toList)
  | .branch .. => True

instance : DecidablePred Statement.IsLegible
  | .line command => inferInstanceAs (Decidable (¬ " \x7b".toList <:+ command.toList))
  | .block head _ => inferInstanceAs
    (Decidable (¬ ("execute (".toList <+: head.toList ∧ ")".toList <:+ head.toList)))
  | .branch .. => inferInstanceAs (Decidable True)

/-- **A program is legible**: no text and no name in it has a line feed, and none of its statements
looks like another one. -/
structure Program.IsLegible (p : Program) : Prop where
  oneLine : ∀ t ∈ p.header ++ itemsNames p.items ++ p.texts, '\n' ∉ t.toList
  statements : ∀ s ∈ p.statements, s.IsLegible

mutual

/-- Members with an empty list in each group without one. -/
def itemsFilled : List Item → List Item
  | [] => []
  | i :: is => i.filled :: itemsFilled is

/-- The same for one member. -/
def Item.filled : Item → Item
  | .function name body => .function name body
  | .dir name items => .dir name (itemsFilled items)
  | .group name values => .group name (some (values.getD []))

end

/-- A program with an empty list in each group without one. -/
def Program.filled (p : Program) : Program :=
  { p with items := itemsFilled p.items }

/-! ### Single lines -/

namespace Frame

variable {f : Frame} {outer : List Frame}

/-- A line inside the innermost frame does not end it. -/
theorem leave?_indentLine (f : Frame) (outer : List Frame) (text : String) :
    leave? (indentLine outer.length text) (f :: outer) = none := by
  cases outer with
  | nil => rfl
  | cons g outer =>
    rw [leave?, List.length_cons, if_neg (indentLine_succ_ne _ _ (by decide)),
      if_neg (indentLine_succ_ne _ _ (by decide))]

theorem step_inside (outer : List Frame) {text : String} {opened : List Frame}
    (h : f.read text = some opened) :
    step (f :: outer) (indentLine outer.length text) = some (opened ++ outer) := by
  have htext : between? (indentLine outer.length "") "" (indentLine outer.length text) =
      some text := by
    rw [between?_eq_some_iff]
    simp [indentLine]
  rw [step, leave?_indentLine, Option.none_or, htext, Option.bind_some, h, Option.map_some]

theorem step_end (f g : Frame) (outer : List Frame) :
    step (f :: g :: outer) (indentLine outer.length "\x7d") = some (f.endIn g :: outer) := by
  rw [step, leave?, if_pos rfl, Option.some_or]

theorem step_otherwise (g : Frame) (outer : List Frame) {o : Frame} (h : f.otherwise? = some o) :
    step (f :: g :: outer) (indentLine outer.length "\x7d else \x7b") =
      some (o :: g :: outer) := by
  rw [step, leave?, if_neg, if_pos rfl, h, Option.map_some, Option.some_or]
  rw [indentLine_inj]
  decide

/-- What is inside a body opens something, or is a command. -/
theorem read_of_isBody (hf : f.opening.isBody = true) (text : String) :
    f.read text = match ofStatement? text with
      | some o => some [{ opening := o }, f]
      | none => some [f.addBody [.line text]] := by
  obtain ⟨opening, header, items, values, body⟩ := f
  cases opening with
  | program | dir | group => cases hf
  | function | block | yes | no => rfl

theorem step_statement (outer : List Frame) (hf : f.opening.isBody = true) {text : String}
    {o : Opening} (h : ofStatement? text = some o) :
    step (f :: outer) (indentLine outer.length text) = some ({ opening := o } :: f :: outer) := by
  have hread := read_of_isBody hf text
  rw [h] at hread
  exact step_inside outer hread

theorem step_line (outer : List Frame) (hf : f.opening.isBody = true) {text : String}
    (h : ofStatement? text = none) :
    step (f :: outer) (indentLine outer.length text) = some (f.addBody [.line text] :: outer) := by
  have hread := read_of_isBody hf text
  rw [h] at hread
  exact step_inside outer hread

theorem step_item (outer : List Frame) (hf : f.opening.isDir = true) {text : String} {o : Opening}
    (h : ofItem? text = some o) :
    step (f :: outer) (indentLine outer.length text) = some ({ opening := o } :: f :: outer) := by
  suffices hread : f.read text = some [{ opening := o }, f] from step_inside outer hread
  obtain ⟨opening, header, items, values, body⟩ := f
  cases opening with
  | program | dir => simp [read, h]
  | group | function | block | yes | no => cases hf

/-- What is opened by a line, filled by those after it and ended by one goes into the frame that was
open before. -/
theorem foldlM_enclosed {line : String} {lines : List String} {o o' : Frame}
    (hopen : step (f :: outer) line = some (o :: f :: outer))
    (hinside : lines.foldlM step (o :: f :: outer) = some (o' :: f :: outer)) :
    (line :: lines ++ [indentLine outer.length "\x7d"]).foldlM step (f :: outer) =
      some (o'.endIn f :: outer) := by
  rw [List.cons_append, List.foldlM_cons, hopen, Option.bind_eq_bind, Option.bind_some,
    List.foldlM_append, hinside, Option.bind_eq_bind, Option.bind_some, List.foldlM_cons, step_end]
  rfl

/-- What is between two openings goes into the first, and what is behind the second into that. -/
theorem foldlM_divided {yes no : List String} {o o' n n' : Frame}
    (hyes : yes.foldlM step (o :: f :: outer) = some (o' :: f :: outer))
    (hotherwise : o'.otherwise? = some n)
    (hno : no.foldlM step (n :: f :: outer) = some (n' :: f :: outer)) :
    (yes ++ indentLine outer.length "\x7d else \x7b" :: no).foldlM step (o :: f :: outer) =
      some (n' :: f :: outer) := by
  rw [List.foldlM_append, hyes, Option.bind_eq_bind, Option.bind_some, List.foldlM_cons,
    step_otherwise f outer hotherwise]
  exact hno

/-! ### What a line opens -/

theorem ofItem?_function (name : String) :
    ofItem? ("function " ++ name ++ " \x7b") = some (.function name) := by
  rw [ofItem?, between?_append]
  rfl

theorem head?_append {lead : String} {c : Char} (h : lead.toList.head? = some c) (s : String) :
    (lead ++ s).toList.head? = some c := by
  rw [String.toList_append, List.head?_append, h, Option.some_or]

theorem ofItem?_dir (name : String) : ofItem? ("dir " ++ name ++ " \x7b") = some (.dir name) := by
  have hhead : ("dir " ++ name ++ " \x7b").toList.head? = some 'd' :=
    head?_append (head?_append rfl name) " \x7b"
  have hfunction : between? "function " " \x7b" ("dir " ++ name ++ " \x7b") = none :=
    between?_of_ne rfl hhead (by decide) " \x7b"
  rw [ofItem?, hfunction, between?_append]
  rfl

theorem ofItem?_group (name : String) :
    ofItem? ("entities " ++ name ++ " \x7b") = some (.group name) := by
  have hhead : ("entities " ++ name ++ " \x7b").toList.head? = some 'e' :=
    head?_append (head?_append rfl name) " \x7b"
  have hfunction : between? "function " " \x7b" ("entities " ++ name ++ " \x7b") = none :=
    between?_of_ne rfl hhead (by decide) " \x7b"
  have hdir : between? "dir " " \x7b" ("entities " ++ name ++ " \x7b") = none :=
    between?_of_ne rfl hhead (by decide) " \x7b"
  rw [ofItem?, hfunction, hdir, between?_append]
  rfl

theorem ofItem?_comment (comment : String) : ofItem? ("#" ++ comment) = none := by
  have hhead : ("#" ++ comment).toList.head? = some '#' := head?_append rfl comment
  have hfunction : between? "function " " \x7b" ("#" ++ comment) = none :=
    between?_of_ne rfl hhead (by decide) " \x7b"
  have hdir : between? "dir " " \x7b" ("#" ++ comment) = none :=
    between?_of_ne rfl hhead (by decide) " \x7b"
  have hgroup : between? "entities " " \x7b" ("#" ++ comment) = none :=
    between?_of_ne rfl hhead (by decide) " \x7b"
  rw [ofItem?, hfunction, hdir, hgroup]
  rfl

theorem ofStatement?_line {command : String} (h : (Statement.line command).IsLegible) :
    ofStatement? command = none := by
  have hbranch : between? "execute (" ") \x7b" command = none := by
    -- what ends like a branch ends like a block
    refine between?_eq_none fun ⟨_, hsuffix⟩ => h ?_
    exact List.IsSuffix.trans (by decide) hsuffix
  rw [ofStatement?, hbranch, between?_eq_none fun ⟨_, hsuffix⟩ => h hsuffix]
  rfl

theorem ofStatement?_block {head : String} {body : List Statement}
    (h : (Statement.block head body).IsLegible) :
    ofStatement? (head ++ " \x7b") = some (.block head) := by
  have hbranch : between? "execute (" ") \x7b" (head ++ " \x7b") = none := by
    rw [Option.eq_none_iff_forall_ne_some]
    intro cond hcond
    -- taking the brace off leaves a head in the parentheses of a branch
    rw [between?_eq_some_iff, show ") \x7b" = ")" ++ " \x7b" from rfl, ← String.append_assoc,
      String.append_left_inj] at hcond
    refine h ⟨?_, ?_⟩
    · rw [hcond, String.append_assoc, String.toList_append]
      exact List.prefix_append ..
    · rw [hcond, String.toList_append]
      exact List.suffix_append ..
  have hblock : between? "" " \x7b" (head ++ " \x7b") = some head := by
    rw [between?_eq_some_iff, String.empty_append]
  rw [ofStatement?, hbranch, hblock]
  rfl

theorem ofStatement?_branch (cond : String) :
    ofStatement? ("execute (" ++ cond ++ ") \x7b") = some (.yes cond) := by
  rw [ofStatement?, between?_append]
  rfl

end Frame

/-! ### Bodies -/

mutual

/-- **Reading the lines of a body** puts its statements into the innermost frame. -/
theorem foldlM_bodyLines : ∀ (body : List Statement) (f : Frame) (outer : List Frame),
    f.opening.isBody = true → (∀ s ∈ allStatements body, s.IsLegible) →
      (bodyLines outer.length body).foldlM Frame.step (f :: outer) =
        some (f.addBody body :: outer)
  | [], f, outer, _, _ => by
    rw [Frame.addBody, List.append_nil]
    rfl
  | s :: ss, f, outer, hf, h => by
    obtain ⟨hs, hrest⟩ := List.forall_mem_cons.mp h
    obtain ⟨hinside, hss⟩ := List.forall_mem_append.mp hrest
    have hfirst := foldlM_statementLines s f outer hf hs hinside
    have hbody := foldlM_bodyLines ss (f.addBody [s]) outer hf hss
    rw [bodyLines, List.foldlM_append, hfirst, Option.bind_eq_bind, Option.bind_some, hbody,
      Frame.addBody, Frame.addBody, List.append_assoc]
    rfl

/-- Reading the lines of a statement puts it into the innermost frame. -/
theorem foldlM_statementLines : ∀ (s : Statement) (f : Frame) (outer : List Frame),
    f.opening.isBody = true → s.IsLegible → (∀ t ∈ statementsInside s, t.IsLegible) →
      (statementLines outer.length s).foldlM Frame.step (f :: outer) =
        some (f.addBody [s] :: outer)
  | .line command, f, outer, hf, hs, _ => by
    rw [statementLines, List.foldlM_cons, Frame.step_line outer hf (Frame.ofStatement?_line hs)]
    rfl
  | .block head body, f, outer, hf, hs, h => by
    have hopen := Frame.step_statement outer hf (Frame.ofStatement?_block hs)
    have hinside := foldlM_bodyLines body { opening := .block head } (f :: outer) rfl h
    exact Frame.foldlM_enclosed hopen hinside
  | .branch cond yes [], f, outer, hf, _, h => by
    have hopen := Frame.step_statement outer hf (Frame.ofStatement?_branch cond)
    have hyes := foldlM_bodyLines yes { opening := .yes cond } (f :: outer) rfl fun t ht =>
      h t (List.mem_append_left _ ht)
    rw [statementLines, List.isEmpty_nil, if_pos rfl, List.append_nil]
    exact Frame.foldlM_enclosed hopen hyes
  | .branch cond yes (n :: no), f, outer, hf, _, h => by
    obtain ⟨hyesLegible, hnoLegible⟩ := List.forall_mem_append.mp h
    have hopen := Frame.step_statement outer hf (Frame.ofStatement?_branch cond)
    have hyes := foldlM_bodyLines yes { opening := .yes cond } (f :: outer) rfl hyesLegible
    have hno := foldlM_bodyLines (n :: no) { opening := .no cond yes } (f :: outer) rfl hnoLegible
    rw [statementLines, List.isEmpty_cons, if_neg Bool.false_ne_true, List.cons_append]
    exact Frame.foldlM_enclosed hopen (Frame.foldlM_divided hyes rfl hno)

end

/-! ### Members -/

/-- Reading the lines of a group puts its members into it. -/
theorem foldlM_values {name : String} {outer : List Frame} : ∀ (values : List String) {f : Frame},
    f.opening = .group name →
      (values.map (indentLine outer.length)).foldlM Frame.step (f :: outer) =
        some ({ f with values := f.values ++ values } :: outer)
  | [], f, _ => by
    rw [List.append_nil]
    rfl
  | v :: values, f, hf => by
    have hread : f.read v = some [{ f with values := f.values ++ [v] }] := by
      rw [Frame.read, hf]
    have hrest := @foldlM_values name outer values { f with values := f.values ++ [v] } hf
    rw [List.map_cons, List.foldlM_cons, Frame.step_inside outer hread]
    refine hrest.trans ?_
    rw [List.append_assoc]
    rfl

mutual

/-- **Reading the lines of members** puts them into the innermost frame. -/
theorem foldlM_itemsLines : ∀ (items : List Item) (dirs : List String) (f : Frame)
    (outer : List Frame), f.opening.isDir = true →
      (∀ g ∈ functionsIn dirs items, ∀ s ∈ allStatements g.2, s.IsLegible) →
      (itemsLines outer.length items).foldlM Frame.step (f :: outer) =
        some (f.addItems (itemsFilled items) :: outer)
  | [], _, f, outer, _, _ => by
    rw [Frame.addItems, itemsFilled, List.append_nil]
    rfl
  | i :: is, dirs, f, outer, hf, h => by
    obtain ⟨hi, his⟩ := List.forall_mem_append.mp h
    have hfirst := foldlM_itemLines i dirs f outer hf hi
    have hrest := foldlM_itemsLines is dirs (f.addItems [i.filled]) outer hf his
    rw [itemsLines, List.foldlM_append, hfirst, Option.bind_eq_bind, Option.bind_some, hrest,
      Frame.addItems, Frame.addItems, List.append_assoc]
    rfl

/-- Reading the lines of a member puts it into the innermost frame. -/
theorem foldlM_itemLines : ∀ (i : Item) (dirs : List String) (f : Frame) (outer : List Frame),
    f.opening.isDir = true →
      (∀ g ∈ functionsOf dirs i, ∀ s ∈ allStatements g.2, s.IsLegible) →
      (itemLines outer.length i).foldlM Frame.step (f :: outer) =
        some (f.addItems [i.filled] :: outer)
  | .function name body, _, f, outer, hf, h => by
    have hopen := Frame.step_item outer hf (Frame.ofItem?_function name)
    have hinside := foldlM_bodyLines body { opening := .function name } (f :: outer) rfl
      (h _ (List.mem_singleton_self _))
    exact Frame.foldlM_enclosed hopen hinside
  | .dir name items, dirs, f, outer, hf, h => by
    have hopen := Frame.step_item outer hf (Frame.ofItem?_dir name)
    have hinside := foldlM_itemsLines items (dirs ++ [name]) { opening := .dir name } (f :: outer)
      rfl h
    exact Frame.foldlM_enclosed hopen hinside
  | .group name values, _, f, outer, hf, _ => by
    have hopen := Frame.step_item outer hf (Frame.ofItem?_group name)
    have hinside := @foldlM_values name (f :: outer) (values.getD [])
      { opening := .group name } rfl
    exact Frame.foldlM_enclosed hopen hinside

end

/-! ### Programs -/

mutual

/-- An empty list is written like none. -/
theorem itemsLines_filled : ∀ (items : List Item) (depth : ℕ),
    itemsLines depth (itemsFilled items) = itemsLines depth items
  | [], _ => rfl
  | i :: is, depth => by
    rw [itemsFilled, itemsLines, itemsLines, itemLines_filled i depth, itemsLines_filled is depth]

theorem itemLines_filled : ∀ (i : Item) (depth : ℕ), itemLines depth i.filled = itemLines depth i
  | .function _ _, _ => rfl
  | .dir name items, depth => by
    rw [Item.filled, itemLines, itemLines, itemsLines_filled items (depth + 1)]
  | .group _ _, _ => rfl

end

namespace Program

theorem source_filled (p : Program) : p.filled.source = p.source := by
  rw [source, source, lines, lines, filled, itemsLines_filled]

/-- Reading the comment lines puts them into the program. -/
theorem foldlM_header : ∀ (header : List String) {f : Frame}, f.opening = .program →
    (header.map ("#" ++ ·)).foldlM Frame.step [f] = some [{ f with header := f.header ++ header }]
  | [], f, _ => by
    rw [List.append_nil]
    rfl
  | h :: header, f, hf => by
    have hread : f.read ("#" ++ h) = some [{ f with header := f.header ++ [h] }] := by
      have hcomment : between? "#" "" ("#" ++ h) = some h := by
        rw [between?_eq_some_iff, String.append_empty]
      rw [Frame.read, hf]
      dsimp only
      rw [Frame.ofItem?_comment, hcomment]
      rfl
    have hstep := Frame.step_inside [] hread
    rw [List.length_nil, indentLine_zero] at hstep
    have hrest := foldlM_header header (f := { f with header := f.header ++ [h] }) hf
    rw [List.map_cons, List.foldlM_cons, hstep]
    refine hrest.trans ?_
    rw [List.append_assoc]
    rfl

/-- **A legible program is read back from its source text**, with an empty list in each group
without one. -/
theorem read_source {p : Program} (hp : p.IsLegible) :
    read p.source = some p.filled ∧
      ∀ q : Program, q.IsLegible → (q.source = p.source ↔ q.filled = p.filled) := by
  have hread : ∀ q : Program, q.IsLegible → read q.source = some q.filled := by
    intro q hq
    have hitems := foldlM_itemsLines q.items [] ⟨.program, q.header, [], [], []⟩ [] rfl
      fun g hg s hs => hq.statements s (List.mem_flatMap.mpr ⟨g, hg, hs⟩)
    have hheader := foldlM_header q.header (f := { opening := .program }) rfl
    have hlines : q.lines.foldlM Frame.step [{ opening := .program }] =
        some [⟨.program, q.header, itemsFilled q.items, [], []⟩] := by
      rw [lines, List.foldlM_append, hheader]
      exact hitems
    rw [read, cutAt_source hq.oneLine, List.dropLast_concat, hlines]
    rfl
  refine ⟨hread p hp, fun q hq => ⟨fun h => ?_, fun h => ?_⟩⟩
  · -- one text is read as one program
    have hsame := hread q hq
    rw [h, hread p hp] at hsame
    exact (Option.some_inj.mp hsame).symm
  · rw [← q.source_filled, h, p.source_filled]

end Program

/-- Closing braces as a command and as a type, and a group without a list of members. -/
def bracedProgram : Program where
  header := ["made", ""]
  items :=
    [.group "mobs" none,
      .dir "a \x7b"
        [.group "none" (some []), .group "braces" (some ["\x7d"]),
          .function "b"
            [.branch "if x" [.line "\x7d", .block "execute as @e run" []] [.line "say no"],
              .branch "\x7d" [] []]]]

theorem read_source_braced :
    bracedProgram.IsLegible ∧ Program.read bracedProgram.source = some bracedProgram.filled ∧
      bracedProgram.filled.IsLegible ∧
      bracedProgram.filled.source = bracedProgram.source ∧
      bracedProgram.filled.items ≠ bracedProgram.items := by
  have hlegible : bracedProgram.IsLegible := ⟨by decide, by decide⟩
  have hfilled : bracedProgram.filled.IsLegible := ⟨by decide, by decide⟩
  obtain ⟨hread, hsame⟩ := Program.read_source hlegible
  refine ⟨hlegible, hread, hfilled, (hsame _ hfilled).mpr rfl, ?_⟩
  simp [bracedProgram, Program.filled, itemsFilled, Item.filled]

end Statuary
