import Statuary.Proofs.Naming.Tags
import Statuary.Proofs.Number.Literal
import Statuary.Proofs.Tag.Word
import Statuary.Proofs.Text.Split
import Statuary.Tag.Parser

/-!
# Reading commands

The commands of a statue are texts, and what they do is said of what is **read** from them, not of
how they were made. This file reads the commands that the functions of a statue are written in:

* a command is words between blanks (`Statuary.words`), of which the first says what is done
  (`Statuary.Action.read?`), or is `execute`, and then clauses say as whom and where
  (`Statuary.readClauses`);
* who is meant is a name, or a selector: a sign with filters between brackets
  (`Statuary.Target.read?`, `Statuary.Filter.read?`).

A command of another form is not read; what it does is for others to say. The words of a command can
be told apart because the names in it are without blanks, commas and brackets
(`Statuary.readFilters_intercalate`).
-/

namespace Statuary

/-! ### What is read -/

/-- A filter of a selector. -/
inductive Filter where
  /-- Entities of a type, or of the types in a group. -/
  | type (name : String)
  /-- Entities that carry a tag. -/
  | tag (name : String)
  /-- Entities within a distance. -/
  | within (limit : Double)
  /-- No more entities than a number. -/
  | limit (count : ℤ)

/-- Who is meant in a command. -/
inductive Target where
  /-- The executing entity, if it passes filters. -/
  | self (filters : List Filter)
  /-- All entities that pass filters. -/
  | all (filters : List Filter)
  /-- A holder of scores that is no entity. -/
  | holder (name : String)

/-- A clause that says as whom, where and whether something is done. -/
inductive Clause where
  /-- As each of the entities. -/
  | as (t : Target)
  /-- Where each of the entities is, turned as it is. -/
  | at (t : Target)
  /-- Where each of the entities is. -/
  | positioned (t : Target)
  /-- Turned otherwise. -/
  | rotated
  /-- If there is such an entity. -/
  | ifEntity (t : Target)
  /-- If two scores are equal. -/
  | ifScore (t : Target) (objective : String) (u : Target) (objective' : String)

/-- What is done. -/
inductive Action where
  /-- Adds a number to a score. -/
  | add (t : Target) (objective : String) (n : ℤ)
  /-- Copies the score of `u` to `t`. -/
  | copy (t : Target) (objective : String) (u : Target) (objective' : String)
  /-- Takes a tag from entities. -/
  | untag (t : Target) (tag : String)
  /-- Brings entities to where the command is executed. -/
  | bring (t : Target)
  /-- Kills entities. -/
  | kill (t : Target)
  /-- Summons an entity with tags where the command is executed. -/
  | summon (type : String) (tags : List String)
  /-- Changes a value in the data of entities. -/
  | assign (t : Target) (path : String) (value : Tag)
  /-- Shows a message. -/
  | tell

/-- A command: what is done, as whom and where, and a score that keeps the result. -/
structure Command where
  /-- The score that keeps the result. -/
  store : Option (Target × String)
  /-- As whom, where and whether it is done. -/
  clauses : List Clause
  /-- What is done. -/
  action : Action

/-! ### Words -/

/-- The words of a command. -/
def words (s : String) : List String :=
  cutAt ' ' s

/-- The text of words. -/
def unwords (ws : List String) : String :=
  " ".intercalate ws

theorem unwords_words (s : String) : unwords (words s) = s := by
  apply String.toList_inj.mp
  have hpieces : (words s).map String.toList = splitOnChar ' ' s.toList := by
    rw [words, cutAt, List.map_map]
    exact (List.map_congr_left fun cs _ => String.toList_ofList).trans (List.map_id _)
  rw [unwords, String.toList_intercalate, hpieces]
  exact intercalate_splitOnChar ' ' s.toList

/-- Words without blanks are found again. -/
theorem words_unwords {ws : List String} (hne : ws ≠ []) (h : ∀ w ∈ ws, ' ' ∉ w.toList) :
    words (unwords ws) = ws :=
  cutAt_intercalate hne h

/-! ### Reading -/

/-- **Reading a filter.** -/
def Filter.read? (s : String) : Option Filter :=
  match cutAt '=' s with
  | [key, value] =>
    if key = "type" then some (.type value)
    else if key = "tag" then some (.tag value)
    else if key = "limit" then (readInteger value.toList).map .limit
    else if key = "distance" then
      ((dropLead? ['.', '.'] value.toList).bind fun cs => readFloatLiteral (String.ofList cs)).map
        .within
    else none
  | _ => none

/-- The filters in a text that ends in a bracket. -/
def readFilters (cs : List Char) : Option (List Filter) :=
  if cs.getLast? = some ']' then (cutAt ',' (String.ofList cs.dropLast)).mapM Filter.read?
  else none

/-- **Reading who is meant.** -/
def Target.read? (s : String) : Option Target :=
  match s.toList with
  | ['@', 's'] => some (.self [])
  | '@' :: 's' :: '[' :: cs => (readFilters cs).map .self
  | '@' :: 'e' :: '[' :: cs => (readFilters cs).map .all
  | '@' :: _ => none
  | _ => some (.holder s)

/-- **Reading clauses** up to the word that ends them, or up to the end. -/
def readClauses : List String → Option (List Clause × List String)
  | [] => some ([], [])
  | w :: ws =>
    if w = "run" then some ([], ws) else
    match ws with
    | [] => none
    | a :: ws =>
      if w = "as" then push ((Target.read? a).map .as) (readClauses ws)
      else if w = "at" then push ((Target.read? a).map .at) (readClauses ws)
      else match ws with
        | [] => none
        | b :: ws =>
          if w = "positioned" ∧ a = "as" then
            push ((Target.read? b).map .positioned) (readClauses ws)
          else if w = "rotated" then push (some .rotated) (readClauses ws)
          else if w = "if" ∧ a = "entity" then push ((Target.read? b).map .ifEntity) (readClauses ws)
          else match ws with
            | c :: d :: e :: f :: ws =>
              if w = "if" ∧ a = "score" ∧ d = "=" then
                push ((Target.read? b).bind fun t => (Target.read? e).map fun u =>
                  .ifScore t c u f) (readClauses ws)
              else none
            | _ => none
where
  /-- A clause before others. -/
  push (c : Option Clause) (rest : Option (List Clause × List String)) :
      Option (List Clause × List String) :=
    c.bind fun c => rest.map fun (cs, ws) => (c :: cs, ws)

/-! ### Reading what is done -/

/-- What is done to scores. -/
def readScores : List String → Option Action
  | [players, op, t, objective, n] =>
    if players = "players" ∧ op = "add" then
      (Target.read? t).bind fun t => (readInteger n.toList).map fun n => .add t objective n
    else none
  | [players, op, t, objective, sign, u, objective'] =>
    if players = "players" ∧ op = "operation" ∧ sign = "=" then
      (Target.read? t).bind fun t => (Target.read? u).map fun u => .copy t objective u objective'
    else none
  | _ => none

/-- What is done to tags. -/
def readUntag : List String → Option Action
  | [t, op, tag] => if op = "remove" then (Target.read? t).map (.untag · tag) else none
  | _ => none

/-- Who is brought to where the command is executed. -/
def readBring : List String → Option Action
  | t :: place => if place = List.replicate 5 "~" then (Target.read? t).map .bring else none
  | [] => none

/-- Who is killed. -/
def readKill : List String → Option Action
  | [t] => (Target.read? t).map .kill
  | _ => none

/-- The tags in the data of an entity. -/
def readTags (data : String) : Option (List String) :=
  match (Tag.parse data).toOption with
  | some (.compound es) =>
    match es.lookup "Tags" with
    | some (.list _ items) => some (items.filterMap fun
      | .string s => some s
      | _ => none)
    | _ => none
  | _ => none

/-- What is summoned where the command is executed. -/
def readSummon : List String → Option Action
  | type :: x :: y :: z :: data =>
    if [x, y, z] = List.replicate 3 "~" then (readTags (unwords data)).map (.summon type) else none
  | _ => none

/-- What value is changed to what. -/
def readAssign : List String → Option Action
  | modify :: entity :: t :: path :: set :: value :: text =>
    if [modify, entity, set, value] = ["modify", "entity", "set", "value"] then
      (Target.read? t).bind fun t => ((Tag.parse (unwords text)).toOption).map (.assign t path)
    else none
  | _ => none

/-- **Reading what is done.** -/
def Action.read? : List String → Option Action
  | [] => none
  | verb :: ws =>
    if verb = "scoreboard" then readScores ws
    else if verb = "tag" then readUntag ws
    else if verb = "tp" then readBring ws
    else if verb = "kill" then readKill ws
    else if verb = "summon" then readSummon ws
    else if verb = "data" then readAssign ws
    else if verb = "tellraw" then some .tell
    else none

/-- Clauses and what is done, after a score to keep the result in. -/
def readExecute (store : Option (Target × String)) (ws : List String) : Option Command :=
  (readClauses ws).bind fun (clauses, rest) =>
    (Action.read? rest).map fun action => ⟨store, clauses, action⟩

/-- The score that keeps the result, and the words after it. -/
def readStore : List String → Option ((Target × String) × List String)
  | store :: result :: score :: t :: objective :: ws =>
    if [store, result, score] = ["store", "result", "score"] then
      (Target.read? t).map fun t => ((t, objective), ws)
    else none
  | _ => none

/-- **Reading a command.** -/
def Command.read? (s : String) : Option Command :=
  match words s with
  | [] => none
  | w :: ws =>
    if w = "execute" then
      match readStore ws with
      | some (store, ws) => readExecute (some store) ws
      | none => readExecute none ws
    else (Action.read? (w :: ws)).map fun action => ⟨none, [], action⟩

/-- **Reading the head of a block**, which is all clauses. -/
def readHead (s : String) : Option (List Clause) :=
  match words s with
  | [] => none
  | w :: ws => if w = "execute" then (readClauses ws).map (·.1) else none

/-- Reading a condition. -/
def readCondition (s : String) : Option (List Clause) :=
  (readClauses (words s)).map (·.1)

theorem readHead_of_words {s : String} {ws : List String} (h : words s = "execute" :: ws) :
    readHead s = (readClauses ws).map (·.1) := by
  rw [readHead, h]
  exact if_pos rfl

theorem readClauses_as {word : String} {t : Target} (h : Target.read? word = some t)
    (ws : List String) :
    readClauses ("as" :: word :: ws) = readClauses.push (some (.as t)) (readClauses ws) := by
  rw [readClauses.eq_def]
  dsimp only
  rw [if_neg (by decide), if_pos rfl, h]
  rfl

/-! ### What is read from names -/

theorem IsToken.readFilter_type {t : String} (h : IsToken t) :
    Filter.read? ("type=" ++ t) = some (.type t) := by
  have hcut : cutAt '=' ("type=" ++ t) = ["type", t] := by
    rw [show "type=" = "type" ++ String.singleton '=' from rfl, cutAt_append,
      cutAt_of_notMem (show '=' ∉ "type".toList by decide), cutAt_of_notMem (h.notMem rfl)]
    rfl
  rw [Filter.read?, hcut]
  rfl

theorem IsToken.readFilter_tag {t : String} (h : IsToken t) :
    Filter.read? ("tag=" ++ t) = some (.tag t) := by
  have hcut : cutAt '=' ("tag=" ++ t) = ["tag", t] := by
    rw [show "tag=" = "tag" ++ String.singleton '=' from rfl, cutAt_append,
      cutAt_of_notMem (show '=' ∉ "tag".toList by decide), cutAt_of_notMem (h.notMem rfl)]
    rfl
  rw [Filter.read?, hcut]
  rfl

theorem readFilter_within (x : Double) :
    Filter.read? ("distance=.." ++ x.plain) = some (.within x) := by
  have hplain : '=' ∉ (".." ++ x.plain).toList := by
    rw [String.toList_append, List.mem_append, not_or]
    exact ⟨by decide, fun hmem => absurd (Tag.isBareChar_of_mem_plain hmem) (by decide)⟩
  have hcut : cutAt '=' ("distance=.." ++ x.plain) = ["distance", ".." ++ x.plain] := by
    rw [show "distance=.." = "distance" ++ String.singleton '=' ++ ".." from rfl,
      String.append_assoc, cutAt_append,
      cutAt_of_notMem (show '=' ∉ "distance".toList by decide), cutAt_of_notMem hplain]
    rfl
  have hlead : dropLead? ['.', '.'] (".." ++ x.plain).toList = some x.plain.toList := by
    rw [String.toList_append]
    exact dropLead?_append ['.', '.'] x.plain.toList
  rw [Filter.read?, hcut]
  simp only [hlead, Option.bind_some, String.ofList_toList, readFloatLiteral_plain]
  rfl

/-- **A selector is read as it was put together.** -/
theorem readFilters_intercalate {parts : List String} {filters : List Filter} (hne : parts ≠ [])
    (hplain : ∀ x ∈ parts, ',' ∉ x.toList) (hread : parts.mapM Filter.read? = some filters) :
    readFilters (",".intercalate parts ++ "]").toList = some filters := by
  have hlast : (",".intercalate parts ++ "]").toList =
      (",".intercalate parts).toList ++ [']'] := String.toList_append
  rw [readFilters, hlast, if_pos (List.getLast?_concat ..), List.dropLast_concat,
    String.ofList_toList]
  rw [show cutAt ',' (",".intercalate parts) = parts from cutAt_intercalate hne hplain, hread]

theorem readTarget_selfTag {t : String} (h : IsToken t) :
    Target.read? ("@s[tag=" ++ t ++ "]") = some (.self [.tag t]) := by
  have hfilters : readFilters ("tag=" ++ t ++ "]").toList = some [.tag t] := by
    have hplain : ',' ∉ ("tag=" ++ t).toList := by
      rw [String.toList_append, List.mem_append, not_or]
      exact ⟨by decide, h.notMem rfl⟩
    have hread := readFilters_intercalate (List.cons_ne_nil ("tag=" ++ t) [])
      (List.forall_mem_singleton.mpr hplain) (by rw [List.mapM_cons, h.readFilter_tag]; rfl)
    rwa [String.intercalate_singleton] at hread
  have htext : ("@s[tag=" ++ t ++ "]").toList =
      '@' :: 's' :: '[' :: ("tag=" ++ t ++ "]").toList := by
    simp
  rw [Target.read?, htext]
  simp only [hfilters, Option.map_some]

end Statuary
