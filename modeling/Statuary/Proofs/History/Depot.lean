import Statuary.History.Restore
import Statuary.Proofs.Export.Effects
import Statuary.Proofs.Export.Filing
import Statuary.Proofs.History.Index
import Statuary.Proofs.History.Store

/-!
# Exports that share a store and an index

Exports one after another change files and rows, and nothing else. What an effect of an export does
to these does not depend on the export (`Statuary.Depot.Stores`), so a sequence of exports is **one
sequence of effects** (`Statuary.Depot.Runs`), and what it leaves at a place or under an id can be
read off them: a place has what it had or what was written there last
(`Statuary.Depot.Runs.has`), and an id has the row it had unless it was noted
(`Statuary.Depot.Runs.lookup`).

An export keeps and notes nothing but itself (`Statuary.Depot.own_of_mem`), and one that works
leaves its text in its file and its row in the index (`Statuary.Depot.after_of_done`).
-/

namespace Statuary

/-! ### Exports that share a store and an index -/

/-- Files and an index. -/
structure Depot where
  /-- The files. -/
  files : FileTree Content := {}
  /-- The index. -/
  index : Index := {}

/-- An export: what it is of, and what its surroundings tell it. -/
structure ExportCall where
  /-- The settings. -/
  settings : Settings
  /-- The rig. -/
  rig : Option Rig
  /-- The export is called off. -/
  canceled : Bool
  /-- The time. -/
  now : Instant
  /-- The time at which its text is archived. -/
  archivedAt : Instant
  /-- Its id. -/
  id : Ulid

namespace Depot

/-- The operations on files. -/
def system : FileSystem (StateM (FileTree Content)) Content :=
  FileTree.system Content.size

/-- An action on the files. -/
def onFiles {α : Type} (act : StateM (FileTree Content) α) : StateM Depot α := fun st =>
  let (a, files) := act.run st.files
  (a, { st with files })

/-- An action on the index. -/
def onIndex (act : Index → Except IndexError Index) : StateM Depot (Except IndexError Unit) :=
  fun st =>
    match act st.index with
    | .ok index => (.ok (), { st with index })
    | .error e => (.error e, st)

/-- **The surroundings of an export**: files, the store below a directory, and the index, which is
the table itself and not the file that holds it. -/
def host (dir : String) (c : ExportCall) : Host (StateM Depot) where
  write path content := do
    return (← onFiles (system.replace path content)).mapError FileError.message
  archive := some fun id project text => do
    return (← onFiles (Store.put system c.archivedAt dir id project text)).mapError
      StoreError.message
  record := some fun entry => do
    return (← onIndex (·.record c.canceled c.now entry)).mapError IndexError.message
  notify := some fun _ => return ()
  log _ := return ()
  now := return c.now
  newId _ := return c.id.text
  canceled := return c.canceled

/-- How an export ends. -/
def outcome (dir : String) (st : Depot) (c : ExportCall) : Outcome :=
  ((Export.run (host dir c) c.settings c.rig).run st).1

/-- What is there after an export. -/
def after (dir : String) (st : Depot) (c : ExportCall) : Depot :=
  ((Export.run (host dir c) c.settings c.rig).run st).2

/-- What is there after exports. -/
def afterAll (dir : String) (st : Depot) (cs : List ExportCall) : Depot :=
  cs.foldl (after dir) st

/-- The effects of an export. -/
def effectsOf (dir : String) (st : Depot) (c : ExportCall) : List HostEffect :=
  ((Export.run (host dir c).observed c.settings c.rig).run (st, [])).2.2

/-- The effects of exports, one after another. -/
def effects (dir : String) : Depot → List ExportCall → List HostEffect
  | _, [] => []
  | st, c :: cs => effectsOf dir st c ++ effects dir (after dir st c) cs

/-- **Restoring an export.** -/
def restore (st : Depot) (id : String) : Except RestoreError (ArchiveHeader × String) :=
  ((st.index.restore system false id).run st.files).1

end Depot

/-- An effect that failed. -/
def HostEffect.isFailure : HostEffect → Bool
  | wrote _ _ (.error _) => true
  | kept _ _ _ (.error _) => true
  | noted _ (.error _) => true
  | _ => false

/-- An effect on files or on the index. -/
def HostEffect.isStored : HostEffect → Bool
  | wrote .. => true
  | kept .. => true
  | noted .. => true
  | _ => false

namespace Depot

variable {dir : String} {st st' : Depot} {c : ExportCall}

/-! ### What effects do -/

/-- **What an effect that does not fail does** to files and index. -/
inductive Stores (dir : String) : Depot → HostEffect → Depot → Prop
  /-- A file is replaced. -/
  | wrote {st : Depot} {files : FileTree Content} {path : String} {content : Content}
    (h : (system.replace path content).run st.files = (.ok (), files)) :
    Stores dir st (.wrote path content (.ok ())) { st with files }
  /-- A text is put into the store. -/
  | kept {st : Depot} {files : FileTree Content} {now : Instant} {id project text path : String}
    (h : (Store.put system now dir id project text).run st.files = (.ok path, files)) :
    Stores dir st (.kept id project text (.ok path)) { st with files }
  /-- An export is noted. -/
  | noted {st : Depot} {index : Index} {canceled : Bool} {now : Instant}
    {entry : HistoryEntry (Option Instant)}
    (h : st.index.record canceled now entry = .ok index) :
    Stores dir st (.noted entry (.ok ())) { st with index }
  /-- Nothing is stored. -/
  | other (st : Depot) {e : HostEffect} (h : e.isStored = false) : Stores dir st e st

theorem onFiles_run (st : Depot) {α : Type} {act : StateM (FileTree Content) α} {a : α}
    {files : FileTree Content} (h : act.run st.files = (a, files)) :
    (onFiles act).run st = (a, { st with files }) := by
  have hrun : (onFiles act).run st =
      match act.run st.files with
      | (a, files) => (a, { st with files }) := rfl
  rw [hrun, h]

/-- An action on the files that works, whatever is said of its errors. -/
theorem onFiles_ok {ε ε' α : Type} {act : StateM (FileTree Content) (Except ε α)} {f : ε → ε'}
    {a : α} (h : (do return (← onFiles act).mapError f : StateM Depot (Except ε' α)).run st =
      (.ok a, st')) : ∃ files, act.run st.files = (.ok a, files) ∧ st' = { st with files } := by
  cases hrun : act.run st.files with
  | mk r files =>
    rw [FileTree.run_bind_eq (onFiles_run st hrun)] at h
    cases r with
    | error => cases (Prod.mk.inj h).1
    | ok =>
      obtain ⟨ha, rfl⟩ := Prod.mk.inj h
      obtain rfl := Except.ok.inj ha
      exact ⟨files, rfl, rfl⟩

theorem onIndex_run (st : Depot) (act : Index → Except IndexError Index) : (onIndex act).run st =
    match act st.index with
    | .ok index => (.ok (), { st with index })
    | .error e => (.error e, st) := rfl

theorem onIndex_run_ok (st : Depot) {act : Index → Except IndexError Index} {index : Index}
    (h : act st.index = .ok index) : (onIndex act).run st = (.ok (), { st with index }) := by
  rw [onIndex_run, h]

/-- An action on the index that works, whatever is said of its errors. -/
theorem onIndex_ok {ε' : Type} {act : Index → Except IndexError Index} {f : IndexError → ε'}
    (h : (do return (← onIndex act).mapError f : StateM Depot (Except ε' Unit)).run st =
      (.ok (), st')) : ∃ index, act st.index = .ok index ∧ st' = { st with index } := by
  cases hact : act st.index with
  | error e =>
    have hrun : (onIndex act).run st = (.error e, st) := by rw [onIndex_run, hact]
    rw [FileTree.run_bind_eq hrun] at h
    cases (Prod.mk.inj h).1
  | ok index =>
    rw [FileTree.run_bind_eq (onIndex_run_ok st hact)] at h
    exact ⟨index, rfl, (Prod.mk.inj h).2.symm⟩

/-- **Every effect of an export stores** what effects of its kind store, whatever the export is. -/
theorem stores_of_causes {e : HostEffect} (h : (host dir c).Causes st e st')
    (hworks : e.isFailure = false) : Stores dir st e st' := by
  cases e with
  | wrote path content result =>
    cases result with
    | error => cases hworks
    | ok =>
      obtain ⟨files, hrun, rfl⟩ := onFiles_ok h
      exact .wrote hrun
  | kept id project text result =>
    cases result with
    | error => cases hworks
    | ok path =>
      obtain ⟨archive, harchive, h⟩ := h
      obtain rfl := Option.some.inj harchive
      obtain ⟨files, hrun, rfl⟩ := onFiles_ok h
      exact .kept hrun
  | noted entry result =>
    cases result with
    | error => cases hworks
    | ok =>
      obtain ⟨record, hrecord, h⟩ := h
      obtain rfl := Option.some.inj hrecord
      obtain ⟨index, hrun, rfl⟩ := onIndex_ok h
      exact .noted hrun
  | told =>
    obtain ⟨tell, htell, h⟩ := h
    obtain rfl := Option.some.inj htell
    obtain ⟨-, rfl⟩ := Prod.mk.inj h
    exact .other _ rfl
  | asked | clock | named | logged =>
    obtain ⟨-, rfl⟩ := Prod.mk.inj h
    exact .other _ rfl

theorem Stores.of_kept {id project text path : String}
    (h : Stores dir st (.kept id project text (.ok path)) st') : ∃ now files,
      (Store.put system now dir id project text).run st.files = (.ok path, files) ∧
        st' = { st with files } := by
  cases h with
  | kept h => exact ⟨_, _, h, rfl⟩
  | other h => cases h

theorem Stores.of_noted {entry : HistoryEntry (Option Instant)}
    (h : Stores dir st (.noted entry (.ok ())) st') : ∃ canceled now, st' = { st with
      index := ⟨Assoc.put entry.id (Recording.row ⟨canceled, now, entry⟩) st.index.rows⟩ } := by
  cases h with
  | @noted index canceled now _ h =>
    obtain rfl := Index.eq_of_record (r := ⟨canceled, now, entry⟩) h
    exact ⟨canceled, now, rfl⟩
  | other h => cases h

/-- **Effects run** one after another. -/
inductive Runs (dir : String) : Depot → List HostEffect → Depot → Prop
  | refl (st : Depot) : Runs dir st [] st
  | head {st st₁ st' : Depot} {e : HostEffect} {es : List HostEffect} (he : Stores dir st e st₁)
    (hes : Runs dir st₁ es st') : Runs dir st (e :: es) st'

theorem Runs.append {st₁ : Depot} {es more : List HostEffect} (hes : Runs dir st es st₁)
    (hmore : Runs dir st₁ more st') : Runs dir st (es ++ more) st' := by
  induction hes with
  | refl => exact hmore
  | head he _ ih => exact .head he (ih hmore)

theorem Runs.of_append {es more : List HostEffect} (h : Runs dir st (es ++ more) st') :
    ∃ st₁, Runs dir st es st₁ ∧ Runs dir st₁ more st' := by
  induction es generalizing st with
  | nil => exact ⟨st, .refl st, h⟩
  | cons e es ih =>
    cases h with
    | head he hes =>
      obtain ⟨st₂, hes, hmore⟩ := ih hes
      exact ⟨st₂, .head he hes, hmore⟩

/-- What stores nothing changes nothing. -/
theorem Runs.eq_of_not_isStored {es : List HostEffect} (h : Runs dir st es st')
    (hes : ∀ e ∈ es, e.isStored = false) : st' = st := by
  induction h with
  | refl => rfl
  | head he _ ih =>
    obtain ⟨hfirst, hrest⟩ := List.forall_mem_cons.mp hes
    rw [ih hrest]
    cases he with
    | wrote | kept | noted => cases hfirst
    | other => rfl

theorem runs_of_leads {es : List HostEffect} (h : (host dir c).Leads st es st')
    (hworks : ∀ e ∈ es, e.isFailure = false) : Runs dir st es st' := by
  induction h with
  | refl => exact .refl _
  | head he _ ih =>
    obtain ⟨hfirst, hrest⟩ := List.forall_mem_cons.mp hworks
    exact .head (stores_of_causes he hfirst) (ih hrest)

/-! ### What is in a file afterwards -/

/-- What is at a place after an effect, given what was there. -/
def overwrite (place : List String) (content : Content) : HostEffect → Content
  | .wrote path new (.ok _) => if Path.place path = place then new else content
  | _ => content

/-- An effect writes a file at a place. -/
def Covers (place : List String) (es : List HostEffect) (new : Content) : Prop :=
  ∃ path, .wrote path new (.ok ()) ∈ es ∧ Path.place path = place

/-- The place of the text that an effect keeps. -/
def keptPlace? (dir : String) : HostEffect → Option (List String)
  | .kept id project .. => some (Path.place (Archive.path dir id project))
  | _ => none

/-- The id that an effect notes. -/
def notedId? : HostEffect → Option String
  | .noted entry _ => some entry.id
  | _ => none

variable {place : List String} {content : Content} {id : String} {es : List HostEffect}

/-- **An effect keeps what is at a place** unless it writes there, if it keeps no text there and
nothing is first written there to be put elsewhere. -/
theorem Stores.has {e : HostEffect} (h : Stores dir st e st')
    (hbeside : ∀ path, Path.place (FileSystem.besideName path) ≠ place)
    (hkept : keptPlace? dir e ≠ some place) (hhas : st.files.Has place content) :
    st'.files.Has place (overwrite place content e) := by
  cases h with
  | wrote h =>
    have hdone := FileTree.replaced_of_replace h
    rw [overwrite]
    split_ifs with hplace
    · exact hplace ▸ hdone.has
    · exact hdone.has_of_ne hhas (Ne.symm hplace) (hbeside _).symm
  | kept h =>
    obtain ⟨-, -, -, rfl, -, -, helse⟩ := Store.put_spec h
    exact helse hhas (fun hplace => hkept (congrArg some hplace.symm)) (hbeside _).symm
  | noted => exact hhas
  | other h =>
    cases e with
    | wrote => cases h
    | _ => exact hhas

/-- **Effects keep what is at a place** but for what they write there. -/
theorem Runs.has (h : Runs dir st es st')
    (hbeside : ∀ path, Path.place (FileSystem.besideName path) ≠ place)
    (hkept : ∀ e ∈ es, keptPlace? dir e ≠ some place) (hhas : st.files.Has place content) :
    st'.files.Has place (es.foldl (overwrite place) content) := by
  induction h generalizing content with
  | refl => exact hhas
  | head he _ ih =>
    obtain ⟨hfirst, hrest⟩ := List.forall_mem_cons.mp hkept
    exact ih hrest (he.has hbeside hfirst hhas)

/-- What is at a place after effects is what was there or what one of them wrote. -/
theorem foldl_overwrite (place : List String) (content : Content) (es : List HostEffect) :
    es.foldl (overwrite place) content = content ∧ (∀ new, ¬ Covers place es new) ∨
      Covers place es (es.foldl (overwrite place) content) := by
  induction es using List.reverseRecOn with
  | nil => exact .inl ⟨rfl, fun _ ⟨_, h, _⟩ => absurd h List.not_mem_nil⟩
  | append_singleton es e ih =>
    rw [List.foldl_append, List.foldl_cons, List.foldl_nil]
    by_cases hcovers : ∃ new, Covers place [e] new
    · obtain ⟨new, path, he, hplace⟩ := hcovers
      obtain rfl := List.mem_singleton.mp he
      rw [overwrite, if_pos hplace]
      exact .inr ⟨path, List.mem_append_right _ he, hplace⟩
    · have hsame : ∀ content, overwrite place content e = content := by
        intro content
        rw [overwrite.eq_def]
        split
        · exact if_neg fun hplace => hcovers ⟨_, _, List.mem_singleton_self _, hplace⟩
        · rfl
      rw [hsame]
      refine ih.imp (fun ⟨hcontent, hnone⟩ => ⟨hcontent, fun new ⟨path, h, hplace⟩ => ?_⟩)
        fun ⟨path, h, hplace⟩ => ⟨path, List.mem_append_left _ h, hplace⟩
      rcases List.mem_append.mp h with h | h
      · exact hnone new ⟨path, h, hplace⟩
      · exact hcovers ⟨new, path, h, hplace⟩

/-- **Effects keep the row of an id** that they do not note. -/
theorem Runs.lookup (h : Runs dir st es st') (hnoted : ∀ e ∈ es, notedId? e ≠ some id) :
    st'.index.rows.lookup id = st.index.rows.lookup id := by
  induction h with
  | refl => rfl
  | head he _ ih =>
    obtain ⟨hfirst, hrest⟩ := List.forall_mem_cons.mp hnoted
    rw [ih hrest]
    cases he with
    | wrote | kept | other => rfl
    | @noted index canceled now entry h =>
      have hrow := Index.eq_of_record (r := ⟨canceled, now, entry⟩) h
      have hne : id ≠ entry.id := fun hid => hfirst (congrArg some hid.symm)
      rw [hrow, Assoc.lookup_put, if_neg hne]

/-! ### The effects of an export -/

theorem accounts_effectsOf (dir : String) (st : Depot) (c : ExportCall) :
    (host dir c).Leads st (effectsOf dir st c) (after dir st c) ∧
      Export.Accounts (host dir c) c.settings c.rig (outcome dir st c) (effectsOf dir st c) := by
  obtain ⟨es, hrun, hleads, haccounts⟩ :=
    Export.observes_run (h := host dir c) rfl c.settings c.rig st []
  have hes : effectsOf dir st c = es := by
    rw [effectsOf, hrun]
    rfl
  rw [hes]
  exact ⟨hleads, haccounts⟩

variable {x : Exported}

/-- An export has the id that its surroundings give it. -/
theorem id_of_finishes {b : Build} {last : List HostEffect}
    (hlast : Export.Finishes (host dir c) c.settings b x last)
    (hcauses : ∀ e ∈ last, ∃ st st', (host dir c).Causes st e st') : x.id = c.id.text := by
  obtain ⟨-, -, now, front, keeps, notes, rfl, hfront, -, -⟩ := hlast
  have hnamed : .named now x.id ∈ front := by
    rw [← Export.mem_plainEffects rfl, hfront]
    exact List.mem_cons_self ..
  obtain ⟨st, st', hcause⟩ := hcauses (.named now x.id) (by simp [hnamed])
  exact (Prod.mk.inj hcause).1.symm

/-- The place of the text of an export. -/
def textPlace (dir : String) (c : ExportCall) : List String :=
  Path.place (Archive.path dir c.id.text c.settings.project)

/-- **An export keeps and notes nothing but itself.** -/
theorem own_of_mem {e : HostEffect} (he : e ∈ effectsOf dir st c) :
    (∀ place, keptPlace? dir e = some place → place = textPlace dir c) ∧
    ∀ id, notedId? e = some id → id = c.id.text := by
  obtain ⟨hleads, haccounts⟩ := accounts_effectsOf dir st c
  cases hlater : e.isLater with
  | false =>
    cases e with
    | kept | noted => cases hlater
    | _ => exact ⟨nofun, nofun⟩
  | true =>
    obtain ⟨b, x, last, -, hlast, hsuffix, hplain⟩ := haccounts.of_isLater he hlater
    have hid : x.id = c.id.text :=
      id_of_finishes hlast fun e he => hleads.exists_causes e (hsuffix.subset he)
    rcases hlast.cases_of_mem hplain with ⟨_, rfl⟩ | ⟨_, rfl⟩ | ⟨_, _, rfl⟩ | ⟨_, rfl⟩
    · exact ⟨nofun, nofun⟩
    · exact ⟨fun _ h => by rw [← Option.some.inj h, hid, textPlace], nofun⟩
    · exact ⟨nofun, fun _ h => (Option.some.inj h).symm.trans hid⟩
    · exact ⟨nofun, nofun⟩

theorem isPlain_of_isStored {e : HostEffect} (h : e.isStored = true) : e.isPlain = true := by
  cases e with
  | clock | logged => cases h
  | _ => rfl

/-- **An export that works keeps its text and then notes itself**; after the text is kept nothing
else is stored. -/
theorem effectsOf_of_done (hdone : outcome dir st c = .done x)
    (hworks : ∀ e ∈ effectsOf dir st c, e.isFailure = false) :
    x.id = c.id.text ∧ ∃ before between behind,
      effectsOf dir st c =
        before ++ .kept c.id.text c.settings.project x.build.text (.ok x.archivePath) ::
          (between ++ .noted (Export.entry c.settings c.now x) (.ok ()) :: behind) ∧
      ∀ e ∈ between ++ behind, e.isStored = false := by
  obtain ⟨hleads, haccounts⟩ := accounts_effectsOf dir st c
  rw [hdone] at haccounts
  obtain ⟨first, last, hes, hlast⟩ := haccounts.of_done
  have hcauses : ∀ e ∈ last, ∃ st st', (host dir c).Causes st e st' := fun e he =>
    hleads.exists_causes e (hes ▸ List.mem_append_right _ he)
  have hid := id_of_finishes hlast hcauses
  obtain ⟨-, -, now, front, keeps, notes, rfl, hfront, hkeeps, hnotes⟩ := hlast
  obtain rfl : now = c.now := by
    obtain ⟨_, _, hcause⟩ := hcauses (.clock now) (List.mem_cons_self ..)
    exact (Prod.mk.inj hcause).1.symm
  obtain ⟨kept, rfl, hpath⟩ : ∃ result, keeps =
    [.kept x.id c.settings.project x.build.text result] ∧
      x.archivePath = result.toOption.getD "" := hkeeps
  obtain ⟨noted, rfl⟩ : ∃ result,
    notes = [.noted (Export.entry c.settings c.now x) result] := hnotes
  rw [hid] at hfront
  have horder : plainEffects (effectsOf dir st c) =
      (plainEffects first ++ [.named c.now c.id.text]) ++
        .kept c.id.text c.settings.project x.build.text kept ::
          ([] ++ .noted (Export.entry c.settings c.now x) noted ::
            [.told (.notice c.settings.project x.id Export.successText c.now.millis)]) := by
    rw [hes]
    simp [HostEffect.isPlain, hfront]
  obtain ⟨before, rest, hsplit, -, hrest⟩ := Export.exists_of_plainEffects horder
  obtain ⟨between, behind, rfl, hbetween, hbehind⟩ := Export.exists_of_plainEffects hrest
  have hplain : plainEffects (between ++ behind) =
      [.told (.notice c.settings.project x.id Export.successText c.now.millis)] := by
    rw [plainEffects_append, hbetween, hbehind]
    rfl
  simp only [hsplit, List.forall_mem_append, List.forall_mem_cons] at hworks
  obtain ⟨-, hkept, -, hnoted, -⟩ := hworks
  cases kept with
  | error => cases hkept
  | ok path =>
    cases noted with
    | error => cases hnoted
    | ok =>
      obtain rfl : x.archivePath = path := hpath
      refine ⟨hid, before, between, behind, hsplit, fun e he => ?_⟩
      by_contra hstored
      rw [Bool.not_eq_false] at hstored
      have htold := (Export.mem_plainEffects (isPlain_of_isStored hstored)).mpr he
      rw [hplain] at htold
      obtain rfl := List.mem_singleton.mp htold
      cases hstored

theorem slash_notMem_project (s : Settings) : '/' ∉ s.project.toList :=
  fun h => absurd (Identifier.isNameChar_of_mem_ofText h) (by decide)

theorem project_ne_empty (s : Settings) : s.project ≠ "" :=
  Identifier.ofText_ne_empty _

theorem isPlainText_project (s : Settings) : Json.IsPlainText s.project :=
  Identifier.isPlainText_ofText _

/-- Nothing that ends otherwise is at the place of a text. -/
theorem place_append_ne (hdir : dir ≠ "") (p : String) {e : String} (he : '/' ∉ e.toList)
    (hlength : 2 < e.length) (hlast : e.toList.getLast? ≠ some 't') :
    Path.place (p ++ e) ≠ textPlace dir c :=
  Archive.place_append_ne hdir c.id.slash_notMem_text (project_ne_empty _)
    (slash_notMem_project _) p he hlength hlast

theorem place_besideName_ne (hdir : dir ≠ "") (p : String) :
    Path.place (FileSystem.besideName p) ≠ textPlace dir c :=
  place_append_ne hdir p (by decide) (by decide) (by decide)

/-- **What an export that works leaves behind**: its text in its file, and its row with its time,
its file and the digest of its text. -/
theorem after_of_done (hdone : outcome dir st c = .done x)
    (hworks : ∀ e ∈ effectsOf dir st c, e.isFailure = false) :
    x.id = c.id.text ∧ dir ≠ "" ∧
      Path.IsShort (Archive.path dir c.id.text c.settings.project) ∧
      (∃ archivedAt, (after dir st c).files.Has (textPlace dir c)
        (.packed (Archive.envelope (Store.header archivedAt c.id.text c.settings.project)
          x.build.text))) ∧
      ∃ row, (after dir st c).index.rows.lookup c.id.text = some row ∧
        row.archivePath = Archive.path dir c.id.text c.settings.project ∧
        row.digest = Digest.ofText x.build.text ∧ row.created = c.now.text := by
  obtain ⟨hid, before, between, behind, hes, hrest⟩ := effectsOf_of_done hdone hworks
  have hruns := runs_of_leads (accounts_effectsOf dir st c).1 hworks
  rw [hes] at hruns
  obtain ⟨st₁, -, hruns⟩ := hruns.of_append
  cases hruns with
  | head hkept hruns =>
    obtain ⟨archivedAt, files, hput, rfl⟩ := hkept.of_kept
    obtain ⟨hdir, -, -, hpath, hshort, hthere, -⟩ := Store.put_spec hput
    rw [hpath] at hshort hthere
    obtain ⟨hnone, hnone'⟩ := List.forall_mem_append.mp hrest
    obtain ⟨st₂, hbetween, hruns⟩ := hruns.of_append
    obtain rfl := hbetween.eq_of_not_isStored hnone
    cases hruns with
    | head hnoted hbehind =>
      obtain ⟨canceled, now, rfl⟩ := hnoted.of_noted
      rw [hbehind.eq_of_not_isStored hnone']
      refine ⟨hid, hdir, hshort, ⟨archivedAt, hthere⟩,
        Recording.row ⟨canceled, now, Export.entry c.settings c.now x⟩, ?_, hpath, rfl, rfl⟩
      have hentry : (Export.entry c.settings c.now x).id = c.id.text := hid
      rw [Assoc.lookup_put, if_pos hentry.symm]

/-! ### Exports that work -/

/-- **An export works if its files can be replaced** and it has a distance. -/
theorem effectsOf_of_replace {r : Rig} {written kept : FileTree Content}
    (hcanceled : c.canceled = false) (hrig : c.rig = some r)
    (hbuild : build c.settings (some r) = .ok x.build) (hraised : x.build.raised = false)
    (hdistance : x.build.distance.isNaN = false) (hid : x.id = c.id.text)
    (hmode : c.settings.exportMode ≠ packMode) (hout : c.settings.outputPath ≠ "")
    (hx : x.outputPath = c.settings.outputPath) (hdir : isBlank dir = false)
    (hpath : Archive.path dir x.id c.settings.project = x.archivePath)
    (hwrote : (system.replace c.settings.outputPath (.text x.build.text)).run st.files =
      (.ok (), written))
    (hkept : (system.replace x.archivePath (.packed (Archive.envelope
      (Store.header c.archivedAt x.id c.settings.project) x.build.text))).run written =
        (.ok (), kept)) :
    outcome dir st c = .done x ∧ (∃ index, after dir st c = ⟨kept, index⟩) ∧
      effectsOf dir st c = Export.workingEffects c.settings c.now x := by
  have hput : (Store.put system c.archivedAt dir x.id c.settings.project x.build.text).run written =
      (.ok x.archivePath, kept) := by
    rw [← hpath] at hkept ⊢
    exact Store.put_of_replace hdir (hid ▸ c.id.text_ne_empty) (project_ne_empty _) hkept
  have haccepted :
      (⟨c.canceled, c.now, Export.entry c.settings c.now x⟩ : Recording).isAccepted = true := by
    simp [Recording.isAccepted, Export.entry, hid, c.id.text_ne_empty, project_ne_empty, hcanceled,
      hdistance]
  -- what the surroundings do, action by action
  have hasked : (host dir c).Causes st (.asked false) st := congrArg (·, st) hcanceled
  have hwrote : (host dir c).Causes st (.wrote c.settings.outputPath (.text x.build.text) (.ok ()))
      { st with files := written } := FileTree.run_bind_eq (onFiles_run st hwrote)
  have hnamed : (host dir c).Causes { st with files := written } (.named c.now x.id)
      { st with files := written } := congrArg (·, _) hid.symm
  have hkept : (host dir c).Causes { st with files := written }
      (.kept x.id c.settings.project x.build.text (.ok x.archivePath)) { st with files := kept } :=
    ⟨_, rfl, FileTree.run_bind_eq (onFiles_run { st with files := written } hput)⟩
  obtain ⟨index, hrecord⟩ := (Index.record_isOk_iff st.index _).mpr haccepted
  have hnoted : (host dir c).Causes { st with files := kept }
      (.noted (Export.entry c.settings c.now x) (.ok ())) ⟨kept, index⟩ :=
    ⟨_, rfl, FileTree.run_bind_eq (onIndex_run_ok { st with files := kept } hrecord)⟩
  have hleads : (host dir c).Leads st (Export.workingEffects c.settings c.now x) ⟨kept, index⟩ :=
    .head hasked <| .head hwrote <| .head rfl <| .head hnamed <| .head hkept <|
      .head hnoted <| .head rfl <| .head ⟨_, rfl, rfl⟩ <| .refl _
  have hrun := Export.run_of_leads hbuild hraised hmode hout hx hleads
  obtain ⟨es, hobserved, -⟩ :=
    Export.observes_run (h := host dir c) rfl c.settings c.rig st []
  rw [hrig, hrun] at hobserved
  obtain ⟨hdone, hafter⟩ := Prod.mk.inj hobserved
  obtain ⟨hafter, -⟩ := Prod.mk.inj hafter
  refine ⟨?_, ⟨index, ?_⟩, ?_⟩
  · rw [outcome, hrig, ← hdone]
  · rw [after, hrig, ← hafter]
  · rw [effectsOf, hrig, hrun]

/-- Nothing fails in an export that works. -/
theorem isFailure_workingEffects (s : Settings) (now : Instant) (x : Exported) :
    ∀ e ∈ Export.workingEffects s now x, e.isFailure = false := by
  simp [Export.workingEffects, HostEffect.isFailure]

end Depot

end Statuary
