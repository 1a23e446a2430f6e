import Statuary.Program.Basic

/-!
# The source text of a program

One statement a line, one tabulator for each level. The text is a list of lines first
(`Statuary.Program.lines`), since everything said of it is said line by line.
-/

namespace Statuary

/-- A line at a level. -/
def indentLine (depth : Nat) (s : String) : String :=
  String.ofList (List.replicate depth '\t') ++ s

mutual

/-- The lines of a body. -/
def bodyLines (depth : Nat) : List Statement → List String
  | [] => []
  | n :: ns => statementLines depth n ++ bodyLines depth ns

/-- The lines of an element. -/
def statementLines (depth : Nat) : Statement → List String
  | .line c => [indentLine depth c]
  | .block head body =>
    indentLine depth (head ++ " \x7b") :: bodyLines (depth + 1) body ++ [indentLine depth "\x7d"]
  | .branch cond yes no =>
    indentLine depth ("execute (" ++ cond ++ ") \x7b") :: bodyLines (depth + 1) yes ++
      (if no.isEmpty then []
        else indentLine depth "\x7d else \x7b" :: bodyLines (depth + 1) no) ++
      [indentLine depth "\x7d"]

end

mutual

/-- The lines of members. -/
def itemsLines (depth : Nat) : List Item → List String
  | [] => []
  | i :: is => itemLines depth i ++ itemsLines depth is

/-- The lines of a member. -/
def itemLines (depth : Nat) : Item → List String
  | .function name body =>
    indentLine depth ("function " ++ name ++ " \x7b") :: bodyLines (depth + 1) body ++
      [indentLine depth "\x7d"]
  | .dir name items =>
    indentLine depth ("dir " ++ name ++ " \x7b") :: itemsLines (depth + 1) items ++
      [indentLine depth "\x7d"]
  | .group name values =>
    indentLine depth ("entities " ++ name ++ " \x7b") ::
      (values.getD []).map (indentLine (depth + 1)) ++ [indentLine depth "\x7d"]

end

namespace Program

/-- The lines of a program. -/
def lines (p : Program) : List String :=
  p.header.map ("#" ++ ·) ++ itemsLines 0 p.items

/-- **The source text** of a program: its lines, each ended by a line feed. -/
def source (p : Program) : String :=
  String.join (p.lines.map (· ++ "\n"))

end Program

end Statuary
