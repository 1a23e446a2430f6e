import Statuary.Json.Writer

/-!
# Notices

An export ends with one message to the editor: a **notice** that it worked, or an **error** with a
code that an editor can act on. A message is written as one JSON object, whose members stand in a
fixed order and of which those with nothing to say are left out (`Statuary.Notice.json`), or as one
line of a log (`Statuary.Notice.logText`).
-/

namespace Statuary

/-- What an error is about. -/
inductive NoticeCode where
  /-- The settings have to be mended. -/
  | config
  /-- The rig cannot be compiled. -/
  | badRig
  /-- The data of a bone cannot be compiled. -/
  | badTag
  /-- The output could not be written. -/
  | write
  /-- Anything else. -/
  | internal
  deriving DecidableEq, Repr

namespace NoticeCode

/-- The text of a code. -/
def text : NoticeCode → String
  | config => "E_CONFIG"
  | badRig => "E_BAD_RIG"
  | badTag => "E_BAD_TAG"
  | write => "E_WRITE"
  | internal => "E_INTERNAL"

/-- All codes. -/
def all : List NoticeCode := [config, badRig, badTag, write, internal]

/-- The code with a text. -/
def ofText? (s : String) : Option NoticeCode :=
  all.find? (·.text == s)

/-- A text is a code, or says that there is none. -/
def isKnown (s : String) : Bool :=
  s = "" || (ofText? s).isSome

/-- The code with a text; any other text stands for what is about anything else. -/
def ofText (s : String) : NoticeCode :=
  (ofText? s).getD internal

end NoticeCode

/-- A message to the editor. Times are in milliseconds since 1970. -/
inductive Notice where
  /-- An export worked. -/
  | notice (project exportId body : String) (time : Int)
  /-- An export failed. -/
  | error (project : String) (code : NoticeCode) (title body : String) (time : Int)
  deriving DecidableEq, Repr

namespace Notice

/-- The version of the messages. -/
def version : String := "1.0"

/-- The type of a message. -/
def type : Notice → String
  | notice .. => "NOTICE"
  | error .. => "ERROR"

/-- The project of a message. -/
def project : Notice → String
  | notice project .. => project
  | error project .. => project

/-- The code of a message; empty if it has none. -/
def code : Notice → String
  | notice .. => ""
  | error _ code .. => code.text

/-- The title of a message; empty if it has none. -/
def title : Notice → String
  | notice .. => ""
  | error _ _ title .. => title

/-- The body of a message. -/
def body : Notice → String
  | notice _ _ body _ => body
  | error _ _ _ body _ => body

/-- The export that a message is about; empty if there is none. -/
def exportId : Notice → String
  | notice _ exportId .. => exportId
  | error .. => ""

/-- The time of a message. -/
def time : Notice → Int
  | notice _ _ _ time => time
  | error _ _ _ _ time => time

/-- A member of an object that is left out when it is empty. -/
def optional (name value : String) : List (String × String) :=
  if value = "" then [] else [(name, Json.ofText value)]

/-- **A message as JSON.** -/
def json (m : Notice) : String :=
  Json.ofMembers <|
    [("type", Json.ofText m.type), ("protocol_version", Json.ofText version)] ++
    optional "code" m.code ++ optional "title" m.title ++ [("body", Json.ofText m.body)] ++
    optional "project" m.project ++ optional "export_id" m.exportId ++
    [("time_unix_ms", Json.ofInt m.time)]

/-- A message in a log. -/
def logText : Notice → String
  | notice project _ body _ => project ++ ": " ++ body
  | error project code title body _ =>
    project ++ " [" ++ code.text ++ "] " ++ title ++ ": " ++ body

/-- Hands a message to each of those that are there, in order. -/
def toEach {m : Type → Type} [Monad m] (n : Notice) : List (Option (Notice → m Unit)) → m Unit
  | [] => return ()
  | none :: rest => n.toEach rest
  | some tell :: rest => do
    tell n
    n.toEach rest

end Notice

/-- A line of a log: a text that does not end in a line feed gets one. -/
def logLine (s : String) : String :=
  if s.toList.getLast? = some '\n' then s else s ++ "\n"

end Statuary
