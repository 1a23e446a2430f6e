import Statuary.Yaml.Property

/-!
# Directives

A line that starts with `%` tells how to read the document that follows: for which version of the
language it is written, or what a handle stands for. There are no other directives, and nothing but
a comment may follow on the line.
-/

namespace Statuary.Yaml

/-- What a directive says. -/
inductive Directive where
  /-- The document is written for a version of the language. -/
  | version (major minor : Nat)
  /-- A handle stands for the beginning of names of types. -/
  | handle (name stands : String)
  deriving DecidableEq, Repr

namespace Directive

/-- Reads a part of a version: at most two digits. -/
def versionNumber : Walk Nat := do
  Walk.want 1
  let digits ← Walk.takeWhile isDigit
  Walk.ensure (!digits.isEmpty && digits.length ≤ 2)
  return digitsValue digits

/-- Reads a version. -/
def readVersion : Walk Directive := do
  let major ← versionNumber
  Walk.ensure ((← Walk.look) == '.')
  Walk.skip
  let minor ← versionNumber
  return .version major minor

/-- Reads a handle and what it stands for. -/
def readMeaning : Walk Directive := do
  let (word, closed) ← readHandle false
  Walk.want 1
  Walk.ensure (isBlank (← Walk.look))
  Walk.skipWhile isBlank
  let stands ← readType
  Walk.want 1
  Walk.ensure (isGap (← Walk.look))
  return .handle (String.ofList (if closed then '!' :: word ++ ['!'] else ['!'])) stands

/-- **Reads a directive** with the line that it stands on. -/
def read : Walk Directive := do
  Walk.skip
  Walk.want 1
  let name ← Walk.takeWhile isNameChar
  Walk.ensure (isGap (← Walk.look))
  Walk.skipWhile isBlank
  let directive ←
    if name == "YAML".toList then readVersion
    else if name == "TAG".toList then readMeaning
    else failure
  Walk.want 1
  Walk.skipWhile isBlank
  if (← Walk.look) == '#' then Walk.toLineEnd
  let ending ← Walk.look
  Walk.ensure (isBreakOrEnd ending)
  if isBreak ending then
    Walk.want 2
    Walk.skipLine
  return directive

end Directive

end Statuary.Yaml
