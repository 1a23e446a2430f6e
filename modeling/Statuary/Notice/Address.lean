import Statuary.Json.Basic
import Statuary.Text.Search

/-!
# Whom notices are for

Notices go to editors on the same machine only, so the address that a request comes from must be one
that leads back to the machine. The text of the address is a host and a service, or a host alone
(`Statuary.Address.host`); the host is an address of four numbers or of eight groups
(`Statuary.Address.read?`), never a name.
-/

namespace Statuary.Address

/-! ### Host and service -/

/-- The host of a text `host:service` or `[host]:service`; nothing for any other text. -/
def splitHost? (cs : List Char) : Option (List Char) :=
  match cs with
  | '[' :: rest =>
    match rest.span (· ≠ ']') with
    | (host, ']' :: ':' :: service) =>
      if host.contains '[' || service.any fun c => c == ':' || c == '[' || c == ']' then none
      else some host
    | _ => none
  | cs =>
    match cs.span (· ≠ ':') with
    | (host, ':' :: service) =>
      if service.contains ':' || cs.any fun c => c == '[' || c == ']' then none else some host
    | _ => none

/-- A text without a square bracket at either end. -/
def dropBrackets (cs : List Char) : List Char :=
  let cs := match cs with
    | '[' :: rest => rest
    | cs => cs
  if cs.getLast? = some ']' then cs.dropLast else cs

/-- The host of a request. -/
def host (s : String) : List Char :=
  dropBrackets ((splitHost? s.toList).getD s.toList)

/-! ### Addresses -/

/-- A number below 256, without zeros before it. -/
def octet? (cs : List Char) : Option Nat :=
  let n := digitsValue cs
  if cs.isEmpty || !cs.all isDigit || 3 < cs.length then none
  else if cs.head? = some '0' ∧ cs ≠ ['0'] then none
  else if 255 < n then none
  else some n

/-- An address of four numbers. -/
def four? (cs : List Char) : Option (List Nat) :=
  match splitOnChar '.' cs with
  | [a, b, c, d] => [a, b, c, d].mapM octet?
  | _ => none

/-- A group of up to four digits in base sixteen. -/
def group? (cs : List Char) : Option Nat :=
  if cs.isEmpty || 4 < cs.length then none
  else (cs.mapM Json.hexValue?).map fun ds => ds.foldl (fun n d => 16 * n + d) 0

/-- Groups between colons. The last one may be an address of four numbers, which stands for two. -/
def groups? (withFour : Bool) (cs : List Char) : Option (List Nat) :=
  if cs.isEmpty then some []
  else
    let parts := splitOnChar ':' cs
    let lead := parts.dropLast.mapM group?
    let last := parts.getLast?.getD []
    let tail : Option (List Nat) :=
      if withFour && last.contains '.' then
        match four? last with
        | some [a, b, c, d] => some [256 * a + b, 256 * c + d]
        | _ => none
      else (group? last).map ([·])
    lead.bind fun lead => tail.map (lead ++ ·)

/-- An address of eight groups, a run of which may be left out where they are zero. -/
def eight? (cs : List Char) : Option (List Nat) :=
  match splitAtFirst [':', ':'] cs with
  | none => (groups? true cs).filter (·.length = 8)
  | some (before, after) => do
    let lead ← groups? false before
    let tail ← groups? true after
    let given := lead.length + tail.length
    if given < 8 then some (lead ++ List.replicate (8 - given) 0 ++ tail) else none

/-- **An address** as eight groups; one of four numbers is at the end of a reserved range. -/
def read? (cs : List Char) : Option (List Nat) :=
  if cs.contains ':' then eight? cs
  else (four? cs).bind fun
    | [a, b, c, d] => some [0, 0, 0, 0, 0, 0xFFFF, 256 * a + b, 256 * c + d]
    | _ => none

/-- An address leads back to the machine. -/
def leadsBack : List Nat → Bool
  | [0, 0, 0, 0, 0, 0, 0, 1] => true
  | [0, 0, 0, 0, 0, 0xFFFF, high, _] => high / 256 == 127
  | _ => false

/-- **A request comes from the same machine.** -/
def isLocal (remote : String) : Bool :=
  (read? (host remote)).any leadsBack

/-- The answer to a request that does not ask for notices in the right way: status and body. -/
def plainAnswer (remote : String) : Nat × String :=
  if isLocal remote then (400, "Bad Request\n") else (403, "forbidden\n")

end Statuary.Address
