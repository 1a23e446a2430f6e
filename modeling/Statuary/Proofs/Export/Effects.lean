import Mathlib.Data.Int.Notation
import Mathlib.Logic.Basic
import Statuary.Export.Run
import Statuary.Proofs.Export.Summon

/-!
# What an export does and what it answers

An export runs over any surroundings, and these may do what they like: a file that cannot be
written, a copy that is refused, an index that fails, each at any call. To say what was done and in
which order, the surroundings are **observed** (`Statuary.Host.observed`): every action does what it
did and leaves an effect behind. An observed run gives the answer of the run itself
(`Statuary.Observes`), so its effects are those of the run.

An answer has one shape of effects (`Statuary.Export.Accounts`), and every claim about order and
number is read off that shape: nothing is written without a program, an output and leave to go on;
a failure is told once and nothing is kept or noted after it; and a success is told last.

Whether an export fails is settled before anything is kept or noted, so a run over other ways to
keep and to note fails exactly where this one does (`Statuary.Export.failure?_run_congr`).
-/

namespace Statuary

namespace Outcome

/-- The code of the error of an export; none if it works or is called off. -/
def code? : Outcome → Option NoticeCode
  | notBuilt e => some e.code
  | noOutput .. => some .config
  | canceled _ => none
  | notWritten .. => some .write
  | done _ => none

/-- The answer of an export that does not work. -/
def failure? : Outcome → Option Outcome
  | done _ => none
  | o => some o

end Outcome

/-! ### Observing -/

/-- What an export does to its surroundings, with what came of it. -/
inductive HostEffect where
  /-- It asks whether it is called off. -/
  | asked (canceled : Bool)
  /-- It writes a file. -/
  | wrote (path : String) (content : Content) (result : Except String Unit)
  /-- It looks at the clock. -/
  | clock (t : Instant)
  /-- It takes a new id. -/
  | named (t : Instant) (id : String)
  /-- It keeps a copy of a text. -/
  | kept (id project text : String) (result : Except String String)
  /-- It notes itself in the index. -/
  | noted (entry : HistoryEntry (Option Instant)) (result : Except String Unit)
  /-- It tells the editor. -/
  | told (n : Notice)
  /-- It writes into the log. -/
  | logged (line : String)

namespace HostEffect

/-- An effect other than a look at the clock and a line of the log. -/
def isPlain : HostEffect → Bool
  | clock _ => false
  | logged _ => false
  | _ => true

/-- An effect that writes a file. -/
def isWrite : HostEffect → Bool
  | wrote .. => true
  | _ => false

/-- An effect of what follows the writing. -/
def isLater : HostEffect → Bool
  | named .. => true
  | kept .. => true
  | noted .. => true
  | told (.notice ..) => true
  | _ => false

/-- The code of an error that the editor is told. -/
def errorCode? : HostEffect → Option NoticeCode
  | told (.error _ code ..) => some code
  | _ => none

theorem errorCode?_eq_none {e : HostEffect} (h : e.isWrite = true ∨ e.isLater = true) :
    e.errorCode? = none := by
  cases e with
  | told n =>
    cases n with
    | notice => rfl
    | error => exact h.elim nofun nofun
  | _ => rfl

theorem isLater_eq_false {e : HostEffect} (h : e.isWrite = true) : e.isLater = false := by
  cases e <;> first | rfl | cases h

theorem isPlain_of_isLater {e : HostEffect} (h : e.isLater = true) : e.isPlain = true := by
  cases e <;> first | rfl | cases h

theorem isPlain_of_isWrite {e : HostEffect} (h : e.isWrite = true) : e.isPlain = true := by
  cases e <;> first | rfl | cases h

end HostEffect

/-- The effects that count for the order. -/
def plainEffects (es : List HostEffect) : List HostEffect :=
  es.filter HostEffect.isPlain

section Observing

variable {σ α β : Type}

/-- An action that leaves an effect behind. -/
def observe (act : StateM σ α) (effect : α → HostEffect) : StateM (σ × List HostEffect) α :=
  fun st =>
    let (a, w) := act.run st.1
    (a, w, st.2 ++ [effect a])

/-- **The same surroundings, observed.** -/
def Host.observed (h : Host (StateM σ)) : Host (StateM (σ × List HostEffect)) where
  write path content := observe (h.write path content) (.wrote path content)
  archive := h.archive.map fun archive id project text =>
    observe (archive id project text) (.kept id project text)
  record := h.record.map fun record entry => observe (record entry) (.noted entry)
  notify := h.notify.map fun notify n => observe (notify n) fun _ => .told n
  log line := observe (h.log line) fun _ => .logged line
  now := observe h.now .clock
  newId t := observe (h.newId t) (.named t)
  canceled := observe h.canceled .asked

theorem Host.observed_archive (h : Host (StateM σ)) : h.observed.archive =
    h.archive.map fun archive id project text =>
      observe (archive id project text) (.kept id project text) := rfl

theorem Host.observed_record (h : Host (StateM σ)) : h.observed.record =
    h.record.map fun record entry => observe (record entry) (.noted entry) := rfl

theorem Host.observed_notify (h : Host (StateM σ)) : h.observed.notify =
    h.notify.map fun notify n => observe (notify n) fun _ => .told n := rfl

/-- What surroundings do leaves an effect behind and changes their state. -/
def Host.Causes (h : Host (StateM σ)) (w : σ) (e : HostEffect) (w' : σ) : Prop :=
  match e with
  | .asked canceled => h.canceled.run w = (canceled, w')
  | .wrote path content result => (h.write path content).run w = (result, w')
  | .clock t => h.now.run w = (t, w')
  | .named t id => (h.newId t).run w = (id, w')
  | .kept id project text result =>
    ∃ archive, h.archive = some archive ∧ (archive id project text).run w = (result, w')
  | .noted entry result => ∃ record, h.record = some record ∧ (record entry).run w = (result, w')
  | .told n => ∃ tell, h.notify = some tell ∧ (tell n).run w = ((), w')
  | .logged line => (h.log line).run w = ((), w')

/-- **Effects lead** from one state to another if the surroundings cause them one after another. -/
inductive Host.Leads (h : Host (StateM σ)) : σ → List HostEffect → σ → Prop
  | refl (w : σ) : h.Leads w [] w
  | head {w w₁ w' : σ} {e : HostEffect} {es : List HostEffect} (he : h.Causes w e w₁)
    (hes : h.Leads w₁ es w') : h.Leads w (e :: es) w'

theorem Host.Leads.append {h : Host (StateM σ)} {w w₁ w' : σ} {es more : List HostEffect}
    (hes : h.Leads w es w₁) (hmore : h.Leads w₁ more w') : h.Leads w (es ++ more) w' := by
  induction hes with
  | refl => exact hmore
  | head he _ ih => exact .head he (ih hmore)

theorem Host.Leads.exists_causes {h : Host (StateM σ)} {w w' : σ} {es : List HostEffect}
    (hes : h.Leads w es w') : ∀ e ∈ es, ∃ w₁ w₂, h.Causes w₁ e w₂ := by
  induction hes with
  | refl => exact fun _ he => absurd he List.not_mem_nil
  | head he _ ih => exact List.forall_mem_cons.mpr ⟨⟨_, _, he⟩, ih⟩

/-- **An observed run of an action**: it ends as the action does, its effects lead there, and result
and effects are related. -/
def Observes (h : Host (StateM σ)) (x : StateM (σ × List HostEffect) α) (y : StateM σ α)
    (P : α → List HostEffect → Prop) : Prop :=
  ∀ w past, ∃ es, x.run (w, past) = ((y.run w).1, (y.run w).2, past ++ es) ∧
    h.Leads w es (y.run w).2 ∧ P (y.run w).1 es

namespace Observes

variable {h : Host (StateM σ)} {x : StateM (σ × List HostEffect) α} {y : StateM σ α}
  {P : α → List HostEffect → Prop}

theorem pure {a : α} (ha : P a []) : Observes h (Pure.pure a) (Pure.pure a) P :=
  fun w past => ⟨[], by rw [List.append_nil]; rfl, .refl w, ha⟩

theorem observe {act : StateM σ α} (effect : α → HostEffect)
    (hcause : ∀ w, h.Causes w (effect (act.run w).1) (act.run w).2) (ha : ∀ a, P a [effect a]) :
    Observes h (observe act effect) act P :=
  fun w _ => ⟨[effect (act.run w).1], rfl, .head (hcause w) (.refl _), ha _⟩

theorem bind {f : α → StateM (σ × List HostEffect) β} {g : α → StateM σ β}
    {Q : β → List HostEffect → Prop}
    (hx : Observes h x y P)
    (hf : ∀ a es, P a es → Observes h (f a) (g a) fun b more => Q b (es ++ more)) :
    Observes h (x >>= f) (y >>= g) Q := by
  intro w past
  obtain ⟨es, hrun, hleads, hes⟩ := hx w past
  obtain ⟨more, hmore, hleads', hQ⟩ := hf _ es hes (y.run w).2 (past ++ es)
  refine ⟨es ++ more, ?_, hleads.append hleads', hQ⟩
  rw [StateT.run_bind, hrun, ← List.append_assoc]
  exact hmore

/-- An effect, and what follows it. -/
theorem observe_bind {act : StateM σ α} {effect : α → HostEffect}
    {f : α → StateM (σ × List HostEffect) β} {g : α → StateM σ β} {Q : β → List HostEffect → Prop}
    (hcause : ∀ w, h.Causes w (effect (act.run w).1) (act.run w).2)
    (hf : ∀ a, Observes h (f a) (g a) fun b more => Q b (effect a :: more)) :
    Observes h (Statuary.observe act effect >>= f) (act >>= g) Q :=
  .bind (.observe (P := fun a es => es = [effect a]) effect hcause fun _ => rfl) fun a _ hes =>
    hes ▸ hf a

theorem mono {Q : α → List HostEffect → Prop} (hx : Observes h x y P)
    (hPQ : ∀ a es, P a es → Q a es) : Observes h x y Q := by
  intro w past
  obtain ⟨es, hrun, hleads, hes⟩ := hx w past
  exact ⟨es, hrun, hleads, hPQ _ es hes⟩

end Observes

/-! ### Delivering -/

variable {h : Host (StateM σ)} {s : Settings} {b : Build}

/-- **The files of an output**: one with the whole text, one with the whole pack, or those of the
pack below a directory. -/
inductive IsOutput (s : Settings) (b : Build) : List (String × Content) → Prop
  /-- The program is one text. -/
  | whole (hmode : s.exportMode ≠ packMode) : IsOutput s b [(s.outputPath, .text b.text)]
  /-- The program is a pack in one file. -/
  | zip {files : List PackFile} {entries : List ZipEntry} (hmode : s.exportMode = packMode)
    (hpack : b.program.pack (Export.packOptions s) = .ok files)
    (hpath : Delivery.isZip s.outputPath = true) (hzip : Zip.ofFiles files = .ok entries) :
    IsOutput s b [(s.outputPath, .zip entries)]
  /-- The program is a pack below a directory. -/
  | below {files : List PackFile} (hmode : s.exportMode = packMode)
    (hpack : b.program.pack (Export.packOptions s) = .ok files)
    (hpath : Delivery.isZip s.outputPath = false) :
    IsOutput s b (files.map fun f => (Path.join [s.outputPath, f.path], .text f.data))

/-- Every file was written. -/
def allWritten (outputs : List (String × Content)) : List HostEffect :=
  outputs.map fun o => .wrote o.1 o.2 (.ok ())

/-- **Writing stops** where a file cannot be written or may not be, the files before it written. -/
inductive Stops : List (String × Content) → List HostEffect → Prop
  | refused (outputs : List (String × Content)) : Stops outputs []
  | failed (path : String) (content : Content) (outputs : List (String × Content))
    (cause : String) : Stops ((path, content) :: outputs) [.wrote path content (.error cause)]
  | next {path : String} {content : Content} {outputs : List (String × Content)}
    {es : List HostEffect} (hes : Stops outputs es) :
    Stops ((path, content) :: outputs) (.wrote path content (.ok ()) :: es)

/-- An effect writes a file of an output. -/
def WritesOf (outputs : List (String × Content)) (e : HostEffect) : Prop :=
  ∃ path content result, (path, content) ∈ outputs ∧ e = .wrote path content result

theorem WritesOf.isWrite {outputs : List (String × Content)} {e : HostEffect}
    (h : WritesOf outputs e) : e.isWrite = true := by
  obtain ⟨path, content, result, -, rfl⟩ := h
  rfl

theorem writesOf_of_stops {outputs : List (String × Content)} {es : List HostEffect}
    (h : Stops outputs es) : ∀ e ∈ es, WritesOf outputs e := by
  induction h with
  | refused => exact fun _ he => absurd he List.not_mem_nil
  | failed => exact List.forall_mem_singleton.mpr ⟨_, _, _, List.mem_cons_self .., rfl⟩
  | next _ ih =>
    refine List.forall_mem_cons.mpr ⟨⟨_, _, _, List.mem_cons_self .., rfl⟩, fun e he => ?_⟩
    obtain ⟨path, content, result, hmem, rfl⟩ := ih e he
    exact ⟨path, content, result, List.mem_cons_of_mem _ hmem, rfl⟩

theorem writesOf_of_mem_allWritten {outputs : List (String × Content)} :
    ∀ e ∈ allWritten outputs, WritesOf outputs e := by
  intro e he
  obtain ⟨o, ho, rfl⟩ := List.mem_map.mp he
  exact ⟨o.1, o.2, _, ho, rfl⟩

theorem writesOf_of_attempt {writes : List HostEffect}
    (h : writes = [] ∨ ∃ outputs, IsOutput s b outputs ∧ Stops outputs writes) :
    ∀ e ∈ writes, ∃ outputs, IsOutput s b outputs ∧ WritesOf outputs e := by
  rcases h with rfl | ⟨outputs, houtput, hstops⟩
  · exact fun _ he => absurd he List.not_mem_nil
  · exact fun e he => ⟨outputs, houtput, writesOf_of_stops hstops e he⟩

theorem isWrite_of_attempt {writes : List HostEffect}
    (h : writes = [] ∨ ∃ outputs, IsOutput s b outputs ∧ Stops outputs writes) :
    ∀ e ∈ writes, e.isWrite = true := by
  intro e he
  obtain ⟨outputs, -, he⟩ := writesOf_of_attempt h e he
  exact he.isWrite

/-- What came of writing: all files are written, or it stopped. -/
def Delivers {ε α : Type} (outputs : List (String × Content)) (result : Except ε α)
    (es : List HostEffect) : Prop :=
  match result with
  | .ok _ => es = allWritten outputs
  | .error _ => Stops outputs es

theorem delivers_mapError {ε ε' α : Type} {f : ε → ε'} {outputs : List (String × Content)}
    {result : Except ε α} {es : List HostEffect} :
    Delivers outputs (result.mapError f) es ↔ Delivers outputs result es := by
  cases result <;> rfl

namespace Delivery

theorem observes_writeBelow (h : Host (StateM σ)) (root : String) (files : List PackFile) :
    Observes h (writeBelow h.observed.write root files) (writeBelow h.write root files)
      (Delivers (files.map fun f => (Path.join [root, f.path], .text f.data))) := by
  induction files with
  | nil => exact .pure rfl
  | cons f files ih =>
    rw [writeBelow, writeBelow]
    cases isPackPath f.path with
    | false => exact .pure (.refused _)
    | true =>
      refine .observe_bind (fun _ => rfl) fun r => ?_
      cases r with
      | error cause => exact .pure (.failed _ _ _ cause)
      | ok _ =>
        refine ih.mono fun r es hes => ?_
        cases r with
        | error => exact .next hes
        | ok => exact congrArg (List.cons _) hes

theorem observes_writeWhole (h : Host (StateM σ)) (path : String) (content : Content) :
    Observes h (writeWhole h.observed.write path content) (writeWhole h.write path content)
      (Delivers [(path, content)]) := by
  refine .observe_bind (fun _ => rfl) fun r => ?_
  cases r with
  | error cause => exact .pure (.failed _ _ _ cause)
  | ok _ => exact .pure rfl

end Delivery

/-! ### The parts of a run -/

@[simp] theorem plainEffects_nil : plainEffects [] = [] := rfl

@[simp] theorem plainEffects_cons (e : HostEffect) (es : List HostEffect) :
    plainEffects (e :: es) = if e.isPlain = true then e :: plainEffects es else plainEffects es :=
  List.filter_cons

@[simp] theorem plainEffects_append (es more : List HostEffect) :
    plainEffects (es ++ more) = plainEffects es ++ plainEffects more :=
  List.filter_append ..

theorem plainEffects_of_isWrite {es : List HostEffect} (h : ∀ e ∈ es, e.isWrite = true) :
    plainEffects es = es :=
  List.filter_eq_self.mpr fun e he => HostEffect.isPlain_of_isWrite (h e he)

/-- What came of writing a program: its output is delivered, or there is no output and nothing is
written. -/
def DeliversProgram {ε α : Type} (s : Settings) (b : Build) (result : Except ε α)
    (es : List HostEffect) : Prop :=
  (∃ outputs, IsOutput s b outputs ∧ Delivers outputs result es) ∨
    (∃ e, result = .error e) ∧ es = []

/-- What came of keeping a copy; its place is nothing if there is none. -/
def Keeps (h : Host (StateM σ)) (project id text path : String) (es : List HostEffect) : Prop :=
  match h.archive with
  | none => es = [] ∧ path = ""
  | some _ => ∃ result, es = [.kept id project text result] ∧ path = result.toOption.getD ""

/-- What came of noting an export. -/
def Notes (h : Host (StateM σ)) (entry : HistoryEntry (Option Instant)) (es : List HostEffect) :
    Prop :=
  match h.record with
  | none => es = []
  | some _ => ∃ result, es = [.noted entry result]

namespace Export

theorem observes_log (h : Host (StateM σ)) (line : String) :
    Observes h (h.observed.log line) (h.log line) fun _ es => plainEffects es = [] :=
  .observe (fun _ => .logged line) (fun _ => rfl) fun _ => rfl

theorem observes_showError {tell : Notice → StateM σ Unit} (htell : h.notify = some tell)
    (project : String) (code : NoticeCode) (title body : String) :
    Observes h (showError h.observed project code title body) (showError h project code title body)
      fun _ es => ∃ t, plainEffects es = [.told (.error project code title body t)] := by
  rw [showError, showError, h.observed_notify, htell, Option.map_some]
  exact .observe_bind (fun _ => rfl) fun t =>
    .observe _ (fun _ => ⟨tell, htell, rfl⟩) fun _ => ⟨t.millis, rfl⟩

theorem observes_warn (h : Host (StateM σ)) (s : Settings) (rig : Option Rig) (b : Build) :
    Observes h (warn h.observed s rig b) (warn h s rig b) fun _ es => plainEffects es = [] := by
  cases rig with
  | none => exact .pure rfl
  | some r =>
    rw [warn, warn]
    cases b.raised with
    | false => exact .pure rfl
    | true => exact observes_log h _

theorem observes_writeOutput (h : Host (StateM σ)) (s : Settings) (b : Build) :
    Observes h (writeOutput h.observed.write s s.outputPath b)
      (writeOutput h.write s s.outputPath b) (DeliversProgram s b) := by
  rw [writeOutput, writeOutput]
  by_cases hmode : s.exportMode = packMode
  · rw [if_neg (not_not.mpr hmode), if_neg (not_not.mpr hmode)]
    cases hpack : b.program.pack (packOptions s) with
    | error e => exact .pure (.inr ⟨⟨_, rfl⟩, rfl⟩)
    | ok files =>
      dsimp only
      rw [Delivery.writePack, Delivery.writePack]
      cases hpath : Delivery.isZip s.outputPath with
      | false =>
        refine .bind (Delivery.observes_writeBelow h s.outputPath files) fun r es hes => ?_
        refine .pure (.inl ⟨_, .below hmode hpack hpath, ?_⟩)
        rw [List.append_nil, delivers_mapError]
        exact hes
      | true =>
        cases hzip : Zip.ofFiles files with
        | error e => exact .pure (.inr ⟨⟨_, rfl⟩, rfl⟩)
        | ok entries =>
          refine .bind (Delivery.observes_writeWhole h s.outputPath (.zip entries))
            fun r es hes => ?_
          refine .pure (.inl ⟨_, .zip hmode hpack hpath hzip, ?_⟩)
          rw [List.append_nil, delivers_mapError]
          exact hes
  · rw [if_pos hmode, if_pos hmode]
    refine .bind (Delivery.observes_writeWhole h s.outputPath (.text b.text)) fun r es hes => ?_
    refine .pure (.inl ⟨_, .whole hmode, ?_⟩)
    rw [List.append_nil, delivers_mapError]
    exact hes

theorem observes_keepCopy (h : Host (StateM σ)) (project id text : String) :
    Observes h (keepCopy h.observed project id text) (keepCopy h project id text)
      fun path es => Keeps h project id text path (plainEffects es) := by
  cases harchive : h.archive with
  | none =>
    rw [keepCopy, keepCopy, h.observed_archive, harchive, Option.map_none]
    refine .pure ?_
    rw [Keeps, harchive]
    exact ⟨rfl, rfl⟩
  | some archive =>
    rw [keepCopy, keepCopy, h.observed_archive, harchive, Option.map_some]
    refine .observe_bind (fun _ => ⟨archive, harchive, rfl⟩) fun r => ?_
    simp only [Keeps, harchive]
    cases r with
    | error e =>
      exact .bind (observes_log h _) fun _ es hes =>
        .pure ⟨.error e, by simp [HostEffect.isPlain, hes], rfl⟩
    | ok path => exact .pure ⟨.ok path, rfl, rfl⟩

theorem observes_note (h : Host (StateM σ)) (s : Settings) (now : Instant) (x : Exported) :
    Observes h (note h.observed s now x) (note h s now x)
      fun _ es => Notes h (entry s now x) (plainEffects es) := by
  cases hrecord : h.record with
  | none =>
    rw [note, note, h.observed_record, hrecord, Option.map_none]
    refine .pure ?_
    rw [Notes, hrecord]
    rfl
  | some record =>
    rw [note, note, h.observed_record, hrecord, Option.map_some]
    refine .observe_bind (fun _ => ⟨record, hrecord, rfl⟩) fun r => ?_
    simp only [Notes, hrecord]
    cases r with
    | error e =>
      exact (observes_log h _).mono fun _ es hes => ⟨.error e, by simp [HostEffect.isPlain, hes]⟩
    | ok _ => exact .pure ⟨.ok (), rfl⟩

/-- What follows when a program is written: the time, a new id, the copy, the note, and at last the
editor is told. -/
def Finishes (h : Host (StateM σ)) (s : Settings) (b : Build) (x : Exported)
    (es : List HostEffect) : Prop :=
  x.build = b ∧ x.outputPath = s.outputPath ∧ ∃ now front keeps notes,
    es = .clock now :: front ++ [.told (.notice s.project x.id successText now.millis)] ∧
    plainEffects front = .named now x.id :: keeps ++ notes ∧
    Keeps h s.project x.id b.text x.archivePath keeps ∧ Notes h (entry s now x) notes

theorem observes_finish {h : Host (StateM σ)} {tell : Notice → StateM σ Unit}
    (htell : h.notify = some tell) (s : Settings) (b : Build) :
    Observes h (finish h.observed s s.outputPath b) (finish h s s.outputPath b)
      (Finishes h s b) := by
  rw [finish, finish, h.observed_notify, htell, Option.map_some]
  refine .observe_bind (fun _ => rfl) fun now => .observe_bind (fun _ => rfl) fun id => ?_
  refine .bind (observes_keepCopy h s.project id b.text) fun path keeps hkeeps => ?_
  refine .bind (observes_note h s now ⟨b, id, s.outputPath, path⟩) fun _ notes hnotes => ?_
  refine .bind (observes_log h _) fun _ logs hlogs => ?_
  refine .observe_bind (fun _ => ⟨tell, htell, rfl⟩) fun _ => .pure ⟨rfl, rfl, now,
    .named now id :: keeps ++ notes ++ logs, plainEffects keeps, plainEffects notes,
    ?_, ?_, hkeeps, hnotes⟩
  · simp
  · simp [HostEffect.isPlain, hlogs]

/-! ### A whole run -/

/-- **The effects of an answer.** -/
inductive Accounts (h : Host (StateM σ)) (s : Settings) (rig : Option Rig) :
    Outcome → List HostEffect → Prop
  /-- There is no program: the editor is told. -/
  | notBuilt {e : BuildError} {es : List HostEffect} {t : ℤ} (hbuild : build s rig = .error e)
    (hes : plainEffects es = [.told (.error s.project e.code failureTitle e.message t)]) :
    Accounts h s rig (.notBuilt e) es
  /-- There is no output: the editor is told. -/
  | noOutput {b : Build} {fault : ConfigFault} {es : List HostEffect} {t : ℤ}
    (hbuild : build s rig = .ok b) (hout : s.outputPath = "")
    (hes : plainEffects es = [.told (.error s.project .config fault.title fault.body t)]) :
    Accounts h s rig (.noOutput b fault) es
  /-- The export is called off, and the editor is not told. -/
  | canceled {b : Build} {es : List HostEffect} (hbuild : build s rig = .ok b)
    (hout : s.outputPath ≠ "") (hes : plainEffects es = [.asked true]) :
    Accounts h s rig (.canceled b) es
  /-- Writing stops: the editor is told. -/
  | notWritten {b : Build} {e : WriteError} {es writes : List HostEffect} {t : ℤ}
    (hbuild : build s rig = .ok b) (hout : s.outputPath ≠ "")
    (hwrites : writes = [] ∨ ∃ outputs, IsOutput s b outputs ∧ Stops outputs writes)
    (hes : plainEffects es =
      .asked false :: writes ++ [.told (.error s.project .write failureTitle e.message t)]) :
    Accounts h s rig (.notWritten b e) es
  /-- The export works: everything is written, and then it finishes. -/
  | done {b : Build} {x : Exported} {es first last : List HostEffect}
    {outputs : List (String × Content)} (hbuild : build s rig = .ok b) (hout : s.outputPath ≠ "")
    (houtput : IsOutput s b outputs)
    (hfirst : plainEffects first = .asked false :: allWritten outputs)
    (hlast : Finishes h s b x last) (hes : es = first ++ last) :
    Accounts h s rig (.done x) es

/-- **The effects of a run** are those of its answer. -/
theorem observes_run {h : Host (StateM σ)} {tell : Notice → StateM σ Unit}
    (htell : h.notify = some tell) (s : Settings) (rig : Option Rig) :
    Observes h (run h.observed s rig) (run h s rig) (Accounts h s rig) := by
  rw [run, run]
  cases hbuild : build s rig with
  | error e =>
    exact .bind (observes_showError htell _ _ _ _) fun _ es ⟨t, hes⟩ =>
      .pure (.notBuilt hbuild (by simpa using hes))
  | ok b =>
    refine .bind (observes_warn h s rig b) fun _ warned hwarned => ?_
    dsimp only
    by_cases hout : s.outputPath = ""
    · rw [if_pos hout, if_pos hout]
      exact .bind (observes_showError htell _ _ _ _) fun _ es ⟨t, hes⟩ =>
        .pure (.noOutput hbuild hout (by simpa [hwarned] using hes))
    rw [if_neg hout, if_neg hout]
    refine .observe_bind (fun _ => rfl) fun canceled => ?_
    cases canceled with
    | true => exact .pure (.canceled hbuild hout (by simp [hwarned, HostEffect.isPlain]))
    | false =>
      refine .bind (observes_writeOutput h s b) fun r writes hwrites => ?_
      cases r with
      | error e =>
        have hstops : writes = [] ∨ ∃ outputs, IsOutput s b outputs ∧ Stops outputs writes :=
          hwrites.symm.imp And.right id
        have hplain : plainEffects writes = writes :=
          plainEffects_of_isWrite (isWrite_of_attempt hstops)
        exact .bind (observes_showError htell _ _ _ _) fun _ es ⟨t, hes⟩ =>
          .pure (.notWritten (t := t) hbuild hout hstops
            (by simp [hwarned, hplain, hes, HostEffect.isPlain]))
      | ok _ =>
        obtain ⟨outputs, houtput, hall⟩ := hwrites.resolve_right fun ⟨⟨_, he⟩, _⟩ => nomatch he
        have hall : writes = allWritten outputs := hall
        have hfirst : plainEffects (warned ++ .asked false :: writes) =
            .asked false :: allWritten outputs := by
          have hplain : plainEffects (allWritten outputs) = allWritten outputs :=
            plainEffects_of_isWrite fun e he => (writesOf_of_mem_allWritten e he).isWrite
          simp [hwarned, hall, hplain, HostEffect.isPlain]
        exact .bind (observes_finish htell s b) fun x last hlast =>
          .pure (.done hbuild hout houtput hfirst hlast (by simp))

/-! ### When everything works -/

theorem observe_bind_run {act : StateM σ α} {effect : α → HostEffect}
    {f : α → StateM (σ × List HostEffect) β} {w w' : σ} {a : α} {past : List HostEffect}
    (hact : act.run w = (a, w')) :
    (observe act effect >>= f).run (w, past) = (f a).run (w', past ++ [effect a]) := by
  have hrun : (observe act effect >>= f).run (w, past) =
      (f (act.run w).1).run ((act.run w).2, past ++ [effect (act.run w).1]) := rfl
  rw [hrun, hact]

/-- The effects of an export of source text in which every action works. -/
def workingEffects (s : Settings) (now : Instant) (x : Exported) : List HostEffect :=
  [.asked false, .wrote s.outputPath (.text x.build.text) (.ok ()), .clock now, .named now x.id,
    .kept x.id s.project x.build.text (.ok x.archivePath), .noted (entry s now x) (.ok ()),
    .logged ("project " ++ s.project ++ ": exported " ++ toString x.build.bones ++ " bones, " ++
      toString x.build.variants ++ " variants to " ++ s.outputPath ++ " (" ++ x.id ++ ")"),
    .told (.notice s.project x.id successText now.millis)]

/-- **An export works if its actions do**: surroundings that lead through the effects of one make
it. -/
theorem run_of_leads {x : Exported} {r : Rig} {now : Instant} {w w' : σ}
    (hbuild : build s (some r) = .ok x.build) (hraised : x.build.raised = false)
    (hmode : s.exportMode ≠ packMode) (hout : s.outputPath ≠ "") (hx : x.outputPath = s.outputPath)
    (hleads : h.Leads w (workingEffects s now x) w') :
    (run h.observed s (some r)).run (w, []) = (.done x, w', workingEffects s now x) := by
  obtain ⟨b, id, out, path⟩ := x
  obtain rfl : out = s.outputPath := hx
  cases hleads with | head hasked hleads =>
  cases hleads with | head hwrote hleads =>
  cases hleads with | head hclock hleads =>
  cases hleads with | head hnamed hleads =>
  cases hleads with | head hkept hleads =>
  cases hleads with | head hnoted hleads =>
  cases hleads with | head hlogged hleads =>
  cases hleads with | head htold hleads =>
  cases hleads
  obtain ⟨archive, harchive, hkept⟩ := hkept
  obtain ⟨record, hrecord, hnoted⟩ := hnoted
  obtain ⟨tell, htell, htold⟩ := htold
  rw [run, hbuild]
  dsimp only
  rw [warn, hraised, if_neg Bool.false_ne_true, pure_bind, if_neg hout]
  refine (observe_bind_run hasked).trans ?_
  rw [if_neg Bool.false_ne_true, writeOutput, if_pos hmode, Delivery.writeWhole]
  simp only [bind_assoc, pure_bind]
  refine (observe_bind_run hwrote).trans ?_
  have hok {ε ε' : Type} (f : ε → ε') : (Except.ok () : Except ε Unit).mapError f = .ok () := rfl
  rw [hok, hok, finish, h.observed_notify, htell, Option.map_some]
  simp only [bind_assoc, pure_bind]
  refine (observe_bind_run hclock).trans ?_
  refine (observe_bind_run hnamed).trans ?_
  rw [keepCopy, h.observed_archive, harchive, Option.map_some]
  simp only [bind_assoc]
  refine (observe_bind_run hkept).trans ?_
  simp only [pure_bind]
  rw [note, h.observed_record, hrecord, Option.map_some]
  simp only [bind_assoc]
  refine (observe_bind_run hnoted).trans ?_
  simp only [pure_bind]
  have hlog (line : String) :
      h.observed.log line = observe (h.log line) fun _ => .logged line := rfl
  rw [hlog]
  refine (observe_bind_run hlogged).trans ?_
  exact observe_bind_run htold

/-! ### What follows from the shape -/

theorem mem_plainEffects {es : List HostEffect} {e : HostEffect} (h : e.isPlain = true) :
    e ∈ plainEffects es ↔ e ∈ es := by
  rw [plainEffects, List.mem_filter, h, and_iff_left rfl]

/-- An effect that counts stands between those before it and those behind it. -/
theorem exists_of_plainEffects {es xs ys : List HostEffect} {e : HostEffect}
    (h : plainEffects es = xs ++ e :: ys) :
    ∃ a b, es = a ++ e :: b ∧ plainEffects a = xs ∧ plainEffects b = ys := by
  obtain ⟨a, rest, rfl, ha, hrest⟩ := List.filter_eq_append_iff.mp h
  obtain ⟨skipped, b, rfl, hskipped, -, hb⟩ := List.filter_eq_cons_iff.mp hrest
  refine ⟨a ++ skipped, b, (List.append_assoc ..).symm, ?_, hb⟩
  have hnone : plainEffects skipped = [] := List.filter_eq_nil_iff.mpr hskipped
  rw [plainEffects_append, hnone, List.append_nil]
  exact ha

theorem filterMap_plainEffects (es : List HostEffect) :
    (plainEffects es).filterMap HostEffect.errorCode? = es.filterMap HostEffect.errorCode? := by
  induction es with
  | nil => rfl
  | cons e es ih =>
    cases e <;> simp [HostEffect.isPlain, List.filterMap_cons, ih, HostEffect.errorCode?]

theorem Keeps.eq_of_mem {h : Host (StateM σ)} {project id text path : String} {es : List HostEffect}
    (hk : Keeps h project id text path es) :
    ∀ e ∈ es, ∃ result, e = .kept id project text result := by
  rw [Keeps] at hk
  split at hk
  · rw [hk.1]
    exact fun _ he => absurd he List.not_mem_nil
  · obtain ⟨result, rfl, -⟩ := hk
    exact List.forall_mem_singleton.mpr ⟨result, rfl⟩

theorem Notes.eq_of_mem {h : Host (StateM σ)} {entry : HistoryEntry (Option Instant)}
    {es : List HostEffect} (hn : Notes h entry es) :
    ∀ e ∈ es, ∃ result, e = .noted entry result := by
  rw [Notes] at hn
  split at hn
  · rw [hn]
    exact fun _ he => absurd he List.not_mem_nil
  · obtain ⟨result, rfl⟩ := hn
    exact List.forall_mem_singleton.mpr ⟨result, rfl⟩

/-- What follows the writing are a new id, the copy, the note and the message. -/
theorem Finishes.cases_of_mem {h : Host (StateM σ)} {x : Exported} {es : List HostEffect}
    (hf : Finishes h s b x es) {e : HostEffect} (he : e ∈ plainEffects es) :
    (∃ now, e = .named now x.id) ∨ (∃ result, e = .kept x.id s.project b.text result) ∨
      (∃ now result, e = .noted (entry s now x) result) ∨
        ∃ t, e = .told (.notice s.project x.id successText t) := by
  obtain ⟨-, -, now, front, keeps, notes, rfl, hfront, hkeeps, hnotes⟩ := hf
  have hclock : plainEffects (.clock now :: front) = plainEffects front := rfl
  rw [plainEffects_append, hclock, hfront] at he
  simp only [List.cons_append, List.mem_cons, List.mem_append] at he
  rcases he with rfl | (he | he) | he
  · exact .inl ⟨now, rfl⟩
  · exact .inr (.inl (Keeps.eq_of_mem hkeeps e he))
  · obtain ⟨result, rfl⟩ := Notes.eq_of_mem hnotes e he
    exact .inr (.inr (.inl ⟨now, result, rfl⟩))
  · exact .inr (.inr (.inr ⟨_, List.mem_singleton.mp he⟩))

theorem Finishes.isLater {h : Host (StateM σ)} {x : Exported} {es : List HostEffect}
    (hf : Finishes h s b x es) : ∀ e ∈ plainEffects es, e.isLater = true := by
  intro e he
  rcases hf.cases_of_mem he with ⟨_, rfl⟩ | ⟨_, rfl⟩ | ⟨_, _, rfl⟩ | ⟨_, rfl⟩ <;> rfl

theorem errorCodes_eq_nil {es : List HostEffect}
    (h : ∀ e ∈ es, e.isWrite = true ∨ e.isLater = true) :
    es.filterMap HostEffect.errorCode? = [] :=
  List.filterMap_eq_nil_iff.mpr fun e he => HostEffect.errorCode?_eq_none (h e he)

/-- **Where an effect that counts comes from**, given the answer of the run. -/
inductive Arises (h : Host (StateM σ)) (s : Settings) (rig : Option Rig) (o : Outcome)
    (es : List HostEffect) : HostEffect → Prop
  /-- The export is not called off. -/
  | goesOn : Arises h s rig o es (.asked false)
  /-- The export is called off. -/
  | calledOff {b : Build} (ho : o = .canceled b) : Arises h s rig o es (.asked true)
  /-- A file of the output is written. -/
  | written {e : HostEffect} {b : Build} {outputs : List (String × Content)}
    (hbuild : build s rig = .ok b) (hout : s.outputPath ≠ "") (houtput : IsOutput s b outputs)
    (he : WritesOf outputs e) (ho : ∀ b, o ≠ .canceled b) : Arises h s rig o es e
  /-- The editor is told of an error. -/
  | failed {project : String} {code : NoticeCode} {title body : String} {t : ℤ} :
    Arises h s rig o es (.told (.error project code title body t))
  /-- The export works and finishes. -/
  | finished {e : HostEffect} {b : Build} {x : Exported} {last : List HostEffect}
    (ho : o = .done x) (hlast : Finishes h s b x last) (hsuffix : last <:+ es)
    (he : e ∈ plainEffects last) : Arises h s rig o es e

namespace Accounts

variable {h : Host (StateM σ)} {rig : Option Rig} {o : Outcome} {es : List HostEffect}

theorem arises (ha : Accounts h s rig o es) {e : HostEffect} (he : e ∈ es)
    (hplain : e.isPlain = true) : Arises h s rig o es e := by
  have he := (mem_plainEffects hplain).mpr he
  cases ha with
  | notBuilt _ hes | noOutput _ _ hes =>
    rw [hes, List.mem_singleton] at he
    exact he ▸ .failed
  | canceled _ _ hes =>
    rw [hes, List.mem_singleton] at he
    exact he ▸ .calledOff rfl
  | notWritten hbuild hout hwrites hes =>
    rw [hes, List.cons_append, List.mem_cons, List.mem_append, List.mem_singleton] at he
    rcases he with rfl | he | rfl
    · exact .goesOn
    · obtain ⟨outputs, houtput, he⟩ := writesOf_of_attempt hwrites e he
      exact .written hbuild hout houtput he (by rintro _ ⟨⟩)
    · exact .failed
  | done hbuild hout houtput hfirst hlast hes =>
    rw [hes, plainEffects_append, hfirst, List.cons_append, List.mem_cons, List.mem_append] at he
    rcases he with rfl | he | he
    · exact .goesOn
    · exact .written hbuild hout houtput (writesOf_of_mem_allWritten e he) (by rintro _ ⟨⟩)
    · exact .finished rfl hlast (hes ▸ List.suffix_append ..) he

/-- Nothing is written without a program, an output and leave to go on; and what is written is a
file of the output. -/
theorem of_isWrite (ha : Accounts h s rig o es) {e : HostEffect} (he : e ∈ es)
    (hwrite : e.isWrite = true) : s.outputPath ≠ "" ∧ (∀ b, o ≠ .canceled b) ∧
      ∃ b outputs, build s rig = .ok b ∧ IsOutput s b outputs ∧ WritesOf outputs e := by
  cases ha.arises he (HostEffect.isPlain_of_isWrite hwrite) with
  | goesOn | calledOff | failed => cases hwrite
  | written hbuild hout houtput hwrites ho => exact ⟨hout, ho, _, _, hbuild, houtput, hwrites⟩
  | finished _ hlast _ hmem =>
    have hlater := HostEffect.isLater_eq_false hwrite
    rw [hlast.isLater e hmem] at hlater
    cases hlater

theorem of_wrote (ha : Accounts h s rig o es) {e : HostEffect} (he : e ∈ es)
    (hwrite : e.isWrite = true) :
    (∃ b, build s rig = .ok b) ∧ s.outputPath ≠ "" ∧ .asked true ∉ es := by
  obtain ⟨hout, ho, b, -, hbuild, -⟩ := ha.of_isWrite he hwrite
  refine ⟨⟨b, hbuild⟩, hout, fun hasked => ?_⟩
  cases ha.arises hasked rfl with
  | calledOff hcanceled => exact ho _ hcanceled
  | written _ _ _ hwrites => cases hwrites.isWrite
  | finished _ hlast _ hmem => cases hlast.isLater _ hmem

/-- The editor is told of errors with the code of the answer. -/
theorem errorCodes (ha : Accounts h s rig o es) :
    es.filterMap HostEffect.errorCode? = o.code?.toList := by
  rw [← filterMap_plainEffects]
  cases ha with
  | notBuilt _ hes | noOutput _ _ hes | canceled _ _ hes =>
    rw [hes]
    rfl
  | notWritten hbuild hout hwrites hes =>
    rw [hes, List.cons_append, List.filterMap_cons, List.filterMap_append,
      errorCodes_eq_nil fun e he => .inl (isWrite_of_attempt hwrites e he)]
    rfl
  | done hbuild hout _ hfirst hlast hes =>
    rw [hes, plainEffects_append, hfirst, List.filterMap_append, List.filterMap_cons,
      errorCodes_eq_nil fun e he => .inl (writesOf_of_mem_allWritten e he).isWrite,
      errorCodes_eq_nil fun e he => .inr (hlast.isLater e he)]
    rfl

/-- An effect of what follows the writing is one of an export that works. -/
theorem of_isLater (ha : Accounts h s rig o es) {e : HostEffect} (he : e ∈ es)
    (hlater : e.isLater = true) : ∃ b x last, o = .done x ∧ Finishes h s b x last ∧
      last <:+ es ∧ e ∈ plainEffects last := by
  cases ha.arises he (HostEffect.isPlain_of_isLater hlater) with
  | goesOn | calledOff | failed => cases hlater
  | written _ _ _ hwrites =>
    rw [HostEffect.isLater_eq_false hwrites.isWrite] at hlater
    cases hlater
  | finished ho hlast hsuffix hmem => exact ⟨_, _, _, ho, hlast, hsuffix, hmem⟩

/-- An export that does not work has no effect of what follows the writing. -/
theorem of_failure (ha : Accounts h s rig o es) (ho : o.failure?.isSome) :
    ∀ e ∈ es, e.isLater = false := by
  intro e he
  by_contra hlater
  rw [Bool.not_eq_false] at hlater
  obtain ⟨b, x, last, rfl, -⟩ := ha.of_isLater he hlater
  cases ho

/-- An export that works finishes. -/
theorem of_done {x : Exported} (ha : Accounts h s rig (.done x) es) :
    ∃ first last, es = first ++ last ∧ Finishes h s x.build x last := by
  cases ha with
  | done _ _ _ _ hlast hes =>
    obtain rfl := hlast.1
    exact ⟨_, _, hes, hlast⟩

/-- What is written is a file of the output. -/
theorem exists_output (ha : Accounts h s rig o es) {path : String} {content : Content}
    {result : Except String Unit} (he : .wrote path content result ∈ es) :
    s.outputPath ≠ "" ∧ ∃ b outputs, IsOutput s b outputs ∧ (path, content) ∈ outputs := by
  obtain ⟨hout, -, b, outputs, -, houtput, path', content', result', hmem, heq⟩ :=
    ha.of_isWrite he rfl
  obtain ⟨rfl, rfl, -⟩ := HostEffect.wrote.inj heq
  exact ⟨hout, b, outputs, houtput, hmem⟩

end Accounts

/-- What fails after an action alike fails alike with it. -/
theorem failure?_bind (x : StateM σ α) {f g : α → StateM σ Outcome}
    (h : ∀ a w, ((f a).run w).1.failure? = ((g a).run w).1.failure?) (w : σ) :
    ((x >>= f).run w).1.failure? = ((x >>= g).run w).1.failure? :=
  h _ _

/-- **Whether an export fails** does not depend on how texts are kept and exports noted. -/
theorem failure?_run_congr (h : Host (StateM σ))
    (archive : Option (String → String → String → StateM σ (Except String String)))
    (record : Option (HistoryEntry (Option Instant) → StateM σ (Except String Unit)))
    (s : Settings) (rig : Option Rig) (w : σ) :
    ((run { h with archive, record } s rig).run w).1.failure? =
      ((run h s rig).run w).1.failure? := by
  rw [run, run]
  cases build s rig with
  | error e => rfl
  | ok b =>
    refine failure?_bind (warn h s rig b) (fun _ w => ?_) w
    dsimp only
    by_cases hout : s.outputPath = ""
    · rw [if_pos hout, if_pos hout]
      rfl
    rw [if_neg hout, if_neg hout]
    refine failure?_bind h.canceled (fun canceled w => ?_) w
    cases canceled with
    | true => rfl
    | false =>
      refine failure?_bind (writeOutput h.write s s.outputPath b) (fun result w => ?_) w
      -- the copy and the index come after the last way to fail
      cases result <;> rfl

/-- **The effects of an export match its answer**, whatever its surroundings do. -/
theorem run_effects (h : Host (StateM σ)) {tell : Notice → StateM σ Unit}
    (htell : h.notify = some tell) (s : Settings) (rig : Option Rig) (w : σ) :
    ∃ es, (run h.observed s rig).run (w, []) =
        (((run h s rig).run w).1, ((run h s rig).run w).2, es) ∧
      h.Leads w es ((run h s rig).run w).2 ∧ Accounts h s rig ((run h s rig).run w).1 es ∧
      (∀ e ∈ es, e.isWrite = true →
        (∃ b, build s rig = .ok b) ∧ s.outputPath ≠ "" ∧ .asked true ∉ es) ∧
      es.filterMap HostEffect.errorCode? = ((run h s rig).run w).1.code?.toList ∧
      (((run h s rig).run w).1.failure?.isSome → ∀ e ∈ es, e.isLater = false) ∧
      ∀ archive record, ((run { h with archive, record } s rig).run w).1.failure? =
        ((run h s rig).run w).1.failure? := by
  obtain ⟨es, hrun, hleads, haccounts⟩ := observes_run htell s rig w []
  exact ⟨es, hrun, hleads, haccounts, fun e he hwrite => haccounts.of_wrote he hwrite,
    haccounts.errorCodes, haccounts.of_failure,
    fun archive record => failure?_run_congr h archive record s rig w⟩

end Export

end Observing

/-! ### A full disk -/

namespace Rig

/-- A rig of one bone. -/
def single : Rig where
  bones := [⟨"b", .zero, .zero, true, "", 1⟩]
  maxDistance := .zero false
  variants := [Rig.defaultVariant]
  touched := []

theorem normalize_single : single.normalize = .ok single := rfl

/-- It can be exported, whatever the project and the output are called. -/
theorem exists_build_single (projectName sourcePath : String) :
    ∃ b, build { projectName, sourcePath } (some single) = .ok b :=
  exists_build normalize_single <| List.forall_mem_singleton.mpr
    ⟨_, Bone.payload_eq_ok.mpr ⟨[], [], [], rfl, rfl, rfl, rfl⟩⟩

end Rig

namespace Export

/-- Surroundings in which nothing can be written and the editor listens. -/
def fullDisk : Host (StateM Unit) where
  write _ _ := return .error "no space left on device"
  archive := none
  record := none
  notify := some fun _ => return ()
  log _ := return ()
  now := return ⟨0⟩
  newId _ := return ""
  canceled := return false

/-- Settings with an output. -/
def diskSettings : Settings where
  projectName := "p"
  sourcePath := "statue.mcb"

/-- **On a full disk** writing stops at the first file, and the editor is told of that. -/
theorem run_effects_fullDisk : ∃ b e es,
    (run fullDisk.observed diskSettings (some .single)).run ((), []) =
        (.notWritten b e, (), es) ∧
      es.filterMap HostEffect.errorCode? = [.write] ∧ ∀ e ∈ es, e.isLater = false := by
  obtain ⟨b, hbuild⟩ := Rig.exists_build_single "p" "statue.mcb"
  have hbuild : build diskSettings (some .single) = .ok b := hbuild
  obtain ⟨e, hstopped⟩ : ∃ e,
      ((run fullDisk diskSettings (some .single)).run ()).1 = .notWritten b e := by
    rw [run, hbuild]
    dsimp only
    rw [warn]
    cases b.raised <;> exact ⟨_, rfl⟩
  obtain ⟨es, hrun, -, -, -, hcodes, hlater, -⟩ :=
    run_effects fullDisk rfl diskSettings (some .single) ()
  rw [hstopped] at hrun hcodes hlater
  exact ⟨b, e, es, hrun, hcodes, hlater rfl⟩

end Export

end Statuary
