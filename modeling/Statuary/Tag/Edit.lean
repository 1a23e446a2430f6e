import Statuary.Tag.Basic

/-!
# Editing trees in place

An edit names a place in a tree by a path of names and positions and changes the list or compound
found there. The tree around it is rebuilt unchanged. An edit has **three outcomes** that are kept
apart: the place does not exist or is of the wrong kind for the edit, the edit is refused (and then
there is no new tree), or there is a new tree.
-/

namespace Statuary

/-- One step down a tree. -/
inductive PathStep where
  /-- To the value of a name in a compound. -/
  | key (name : String)
  /-- To an item of a list. -/
  | index (i : Nat)
  deriving DecidableEq, Repr

/-- A change of a list or compound. The operand may be missing. -/
inductive Edit where
  /-- Adds the operand to the end of a list. -/
  | append (operand : Option Tag)
  /-- Maps a name of a compound to the operand. -/
  | set (name : String) (operand : Option Tag)
  /-- Maps a new name of a compound to the operand. -/
  | add (name : String) (operand : Option Tag)
  /-- Maps a name of a compound to the operand unless it is there. -/
  | setDefault (name : String) (operand : Option Tag)
  /-- Merges the operand into a compound. -/
  | merge (operand : Option Tag)

namespace Tag

/-- The tag one step down. -/
def child? : Tag → PathStep → Option Tag
  | .compound es, .key name => es.lookup name
  | .list _ items, .index i => items[i]?
  | _, _ => none

/-- The tree with the tag one step down replaced. -/
def withChild : Tag → PathStep → Tag → Tag
  | .compound es, .key name, t => .compound (Assoc.put name t es)
  | .list k items, .index i, t => .list k (items.set i t)
  | other, _, _ => other

/-- The tag at the end of a path. -/
def follow? (t : Tag) (path : List PathStep) : Option Tag :=
  path.foldlM child? t

/-- Why there is no item at a position. -/
inductive IndexError where
  /-- The position is before the first item. -/
  | negative (i : Int)
  /-- The position is after the last item. -/
  | beyond (i : Int) (length : Nat)
  deriving DecidableEq, Repr

/-- The text of a missing position. -/
def IndexError.message : IndexError → String
  | negative i => s!"runtime error: index out of range [{i}]"
  | beyond i length => s!"runtime error: index out of range [{i}] with length {length}"

/-- The item of a list at a position. -/
def item (items : List Tag) (i : Int) : Except IndexError Tag :=
  match i with
  | .ofNat n =>
    match items[n]? with
    | some t => .ok t
    | none => .error (.beyond i items.length)
  | .negSucc _ => .error (.negative i)

/-- Equality where a tag may be missing; what is missing equals only what is missing. -/
def sameOption : Option Tag → Option Tag → Bool
  | some a, some b => a.same b
  | none, none => true
  | _, _ => false

end Tag

namespace Edit

/-- What an edit makes of the tag it is applied to; nothing if that is of the wrong kind. -/
def apply : Edit → Tag → Option (Except EditError Tag)
  | append t, .list k items => some (Tag.append k items t)
  | set name t, .compound es => some ((Tag.set es name t).map .compound)
  | add name t, .compound es => some ((Tag.add es name t).map .compound)
  | setDefault name t, .compound es => some ((Tag.setDefault es name t).map fun r => .compound r.2)
  | merge t, .compound es => some (.ok (.compound (Tag.merge es t)))
  | _, _ => none

/-- What an edit at the end of a path makes of a tree. -/
def applyAt (e : Edit) : List PathStep → Tag → Option (Except EditError Tag)
  | [], t => e.apply t
  | s :: path, t =>
    match t.child? s with
    | none => none
    | some c => (applyAt e path c).map fun r => r.map (t.withChild s)

end Edit

end Statuary
