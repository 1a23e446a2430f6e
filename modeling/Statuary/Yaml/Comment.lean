import Statuary.Yaml.Cursor

/-!
# Comments

A comment goes from `#` to the end of its line and means nothing. Still it matters how comments are
gone over: the blank space **between** two comments belongs to them, so a tabulator that may not
stand before a token may stand before a second comment (`Statuary.Yaml.Walk.comments`). A comment
after a token on its line is taken together with the token (`Statuary.Yaml.Walk.lineComment`), and
then what comes after it is ordinary blank space.
-/

namespace Statuary.Yaml.Walk

/-- How many characters of blank space are searched for a further comment. -/
def commentReach : Nat := 512

/-- Goes to the end of the line. -/
def toLineEnd : Walk Unit :=
  skipWhile (!isBreakOrEnd ·)

/-- Goes over blank space, line breaks included, to the place with a given index. -/
def goTo (target : Nat) : Nat → Walk Unit
  | 0 => pure ()
  | fuel + 1 => do
    want 1
    let c ← place
    if target ≤ c.index then pure ()
    else if isBreakOrEnd c.head then
      want 2
      skipLine
      goTo target fuel
    else
      skip
      goTo target fuel

/-- Goes over the comment that starts `k` places ahead. -/
def commentAt (k : Nat) : Walk Unit := do
  goTo ((← place).index + k) (k + 1)
  toLineEnd

/-- Goes over the comments that follow, with the blank space between them. There is nothing but
blank space in the first `k` places. -/
def commentsFrom : Nat → Nat → Walk Unit
  | 0, _ => pure ()
  | fuel + 1, k => do
    if commentReach ≤ k then return
    want (k + 1)
    let ch ← lookAt k
    if isBlank ch || ch == '\n' || ch == '\r' then commentsFrom fuel (k + 1)
    else if ch == '#' then
      commentAt k
      let ending ← look
      if ending == '\n' || ending == '\r' then commentsFrom fuel 1 else want 2

/-- **Goes over the comment that starts here and those after it.** Only blank space with common line
breaks may lie between two of them. -/
def comments : Walk Unit := do
  commentsFrom ((commentReach + 1) * ((← place).rest.length + 1)) 0

/-- Goes over a comment on this line after `k` blanks, if there is one. -/
def lineCommentFrom : Nat → Nat → Walk Unit
  | 0, _ => pure ()
  | fuel + 1, k => do
    want (k + 1)
    let ch ← lookAt k
    if isBlank ch then lineCommentFrom fuel (k + 1)
    else if ch == '#' then commentAt k

/-- Goes over a comment on the line of the token before. -/
def lineComment : Walk Unit := do
  unless (← place).fresh do lineCommentFrom commentReach 0

end Statuary.Yaml.Walk
