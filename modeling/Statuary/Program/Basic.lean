import Statuary.Text.Search

/-!
# Command programs

A program is a tree: directories hold functions, groups of entity types and directories; a function
has a body of commands, of blocks that run through an `execute` chain, and of branches on a
condition. It is written in two ways, as source text (`Statuary.Program.source`) and as the files of
a pack (`Statuary.Program.pack`).
-/

namespace Statuary

/-- An element of the body of a function. -/
inductive Statement where
  /-- A single command. -/
  | line (command : String)
  /-- A body that runs in every context that the head, an `execute` chain, selects. -/
  | block (head : String) (body : List Statement)
  /-- The first body where the condition holds, the second one where it does not. -/
  | branch (cond : String) (yes no : List Statement)
  deriving Inhabited

/-- A member of a program or directory. -/
inductive Item where
  /-- A function. -/
  | function (name : String) (body : List Statement)
  /-- A directory. -/
  | dir (name : String) (items : List Item)
  /-- A group of entity types; it may have no list of members at all. -/
  | group (name : String) (values : Option (List String))
  deriving Inhabited

/-- A program: comment lines for the head of every function, and its members. -/
structure Program where
  /-- Comment lines, without the sign that starts a comment. -/
  header : List String
  /-- The members at the top. -/
  items : List Item

/-- The name of a member. -/
def Item.name : Item → String
  | .function name _ => name
  | .dir name _ => name
  | .group name _ => name

namespace Program

/-- The member that a list of names leads to: at each level the first member of that name. -/
def find (items : List Item) : List String → Option Item
  | [] => none
  | [name] => items.find? (·.name = name)
  | name :: rest =>
    match items.find? (·.name = name) with
    | some (.dir _ inner) => find inner rest
    | _ => none

/-- The member at a path of names between slashes. -/
def lookup (p : Program) (path : String) : Option Item :=
  find p.items ((splitOnChar '/' path.toList).map String.ofList)

/-- The body of the function at a path. -/
def function? (p : Program) (path : String) : Option (List Statement) :=
  match p.lookup path with
  | some (.function _ body) => some body
  | _ => none

end Program

mutual

/-- Every command of a body from first to last, the heads of blocks included. -/
def commands : List Statement → List String
  | [] => []
  | n :: ns => statementCommands n ++ commands ns

/-- The commands of one element. -/
def statementCommands : Statement → List String
  | .line c => [c]
  | .block head body => head :: commands body
  | .branch _ yes no => commands yes ++ commands no

end

mutual

/-- Some branch occurs in a body. -/
def hasBranch : List Statement → Bool
  | [] => false
  | n :: ns => statementHasBranch n || hasBranch ns

/-- Some branch occurs in an element. -/
def statementHasBranch : Statement → Bool
  | .line _ => false
  | .block _ body => hasBranch body
  | .branch .. => true

end

mutual

/-- Some branch occurs in a function among the members. -/
def itemsHaveBranch : List Item → Bool
  | [] => false
  | i :: is => itemHasBranch i || itemsHaveBranch is

/-- Some branch occurs in a function of a member. -/
def itemHasBranch : Item → Bool
  | .function _ body => hasBranch body
  | .dir _ items => itemsHaveBranch items
  | .group .. => false

end

end Statuary
