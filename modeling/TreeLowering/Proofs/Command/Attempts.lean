import Mathlib.Tactic.Common
import TreeLowering.Proofs.Command.Outputs
import TreeLowering.Proofs.Program.Faults

/-! # Attempts of a build

A build is a run of attempts, one for each unit and in the order of the units. An attempt starts from
what the one before it left, whether that one failed or not. A failing attempt touches no file and gives
the build one line to tell. -/
namespace TreeLowering
set_option autoImplicit false

open Relation FileTree

/-- The same files with the same contents; there may be other directories. -/
def FileTree.SameFiles (t u : FileTree) : Prop :=
  ∀ names content, u.node? names = some (.file content) ↔ t.node? names = some (.file content)

theorem FileTree.sameFiles_of_changes {t u : FileTree} (h : ReflTransGen (Change fun _ _ => False) t u) :
    t.SameFiles u := by
  have hOrigin {names : List String} {content : Content} (hAfter : u.node? names = some (.file content)) :
      t.node? names = some (.file content) := by
    rcases changes_file_origin h hAfter with hBefore | ⟨_, hNever, _⟩
    · exact hBefore
    · exact hNever.elim
  intro names content
  constructor
  · exact hOrigin
  · intro hBefore
    obtain ⟨content', hAfter⟩ := changes_file_kept h hBefore
    cases hBefore.symm.trans (hOrigin hAfter)
    exact hAfter

/-- One unit of a build, with the console before and after it. -/
structure Attempt where
  path : Path
  before : Console
  after : Console
  failure? : Option Failure

/-- A unit that failed. -/
structure FailedUnit where
  path : Path
  failure : Failure

def Attempt.failed? (a : Attempt) : Option FailedUnit := a.failure?.map (⟨a.path, ·⟩)

/-- How a build tells of a unit that failed. -/
def FailedUnit.notice (u : FailedUnit) : Notice := .failed u.path.text u.failure

def Attempt.failures (attempts : List Attempt) : List FailedUnit := attempts.filterMap Attempt.failed?

/-- The attempts that lead from one console to another. -/
inductive Job.Runs (job : Job) : Console → List Attempt → Console → Prop where
  | nil (c : Console) : Runs job c [] c
  | built {p : Path} {c c' last : Console} {rest : List Attempt} (hUnit : job.buildUnit p c = .ok () c')
    (hRest : Runs job c' rest last) : Runs job c (⟨p, c, c', none⟩ :: rest) last
  | failed {p : Path} {c c' last : Console} {rest : List Attempt} {e : Failure}
    (hUnit : job.buildUnit p c = .error e c') (hRest : Runs job c' rest last) :
    Runs job c (⟨p, c, c', some e⟩ :: rest) last

/-- What an attempt may do. A unit without a module text fails and leaves the files alone; a failure is one
that can be told and makes directories at most; otherwise the module text is where it was to go. -/
structure Attempt.Sound (a : Attempt) (job : Job) : Prop where
  textless : job.moduleText? a.before.files a.path = none →
    a.failure?.isSome = true ∧ a.after.files = a.before.files
  failing : ∀ e, a.failure? = some e → (∃ cause loc, e = .fault cause loc) ∧
    a.before.files.SameFiles a.after.files
  building : a.failure? = none → ∃ text, job.moduleText? a.before.files a.path = some text ∧
    (∀ target, job.destination.target? (Script.ofFile a.path "") = some target →
      a.after.files.read target = .ok text) ∧
    (job.destination.target? (Script.ofFile a.path "") = none →
      ∃ shown, a.after.printed = a.before.printed ++ shown ++ text ++ "\n")

/-! ## Steps of one unit -/

theorem Document.load_eq_error {text file : String} {e : Failure} (h : load text file = .error e) :
    ∃ reason, e = .fault (.document file reason) none := by
  rw [load] at h
  split at h
  · cases h
  · rename_i reason _
    cases h
    exact ⟨reason, rfl⟩

namespace Build

theorem get_bind_apply {α : Type} (k : Console → Build α) (c : Console) : (get >>= k) c = k c c := rfl

variable (c : Console)

theorem readScript_of_read {p : Path} {content : String} (h : c.files.read p = .ok content) :
    readScript p c = .ok (Script.ofFile p content) c := by
  rw [readScript, get_bind_apply, h]
  rfl

theorem readScript_of_unread {p : Path} {reason : FileError} (h : c.files.read p = .error reason) :
    readScript p c = .error (.fault (.unreadableScript (Text.inQuotes p.text) reason.message) none) c := by
  rw [readScript, get_bind_apply, h]
  rfl

theorem makeParent_cases (p : Path) :
    (∃ c', makeParent p c = .ok () c') ∨ ∃ cause, makeParent p c = .error (.fault cause none) c := by
  rw [makeParent]
  cases p.parent? with
  | none => exact .inl ⟨c, rfl⟩
  | some parent =>
    dsimp only
    split
    · exact .inl ⟨c, rfl⟩
    · rw [get_bind_apply]
      cases c.files.makeDirectories parent with
      | ok files => exact .inl ⟨_, rfl⟩
      | error e => exact .inr ⟨_, rfl⟩

theorem writeFile_cases (p : Path) (s : String) :
    (∃ c', writeFile p s c = .ok () c' ∧ c'.files.read p = .ok s) ∨
      ∃ cause c', writeFile p s c = .error (.fault cause none) c' ∧ c.files.SameFiles c'.files := by
  cases hWrite : writeFile p s c with
  | ok _ c' =>
    obtain ⟨w, names, _, hLocate, hPlain, hPut⟩ := writeFile_eq_ok hWrite
    refine .inl ⟨c', rfl, read_eq_ok_iff.mpr ⟨names, ?_, ?_⟩⟩
    · rw [hPut]
      exact changes_locate (.single (.file (W := fun _ _ => True) trivial hPlain)) hLocate
    · rw [hPut, node?_put_self _ _ (ne_nil_of_node? hPlain)]
  | error e c' =>
    rw [writeFile] at hWrite
    rcases makeParent_cases c p with ⟨made, hMade⟩ | ⟨cause, hFailed⟩
    · rw [run_bind_of_ok hMade, get_bind_apply] at hWrite
      cases hPut : made.files.write p s with
      | ok files =>
        rw [hPut] at hWrite
        cases hWrite
      | error reason =>
        rw [hPut] at hWrite
        cases hWrite
        exact .inr ⟨_, c', rfl, sameFiles_of_changes (makeParent_changes hMade)⟩
    · rw [run_bind_of_error hFailed] at hWrite
      cases hWrite
      exact .inr ⟨cause, c, rfl, sameFiles_of_changes .refl⟩

end Build

namespace Job

variable (job : Job) (c : Console)

/-- Showing a stage adds to what is printed, or fails because there are no scopes to show. -/
theorem printStage_cases (d : Document) :
    (∃ shown, job.printStage d c = .ok () ⟨c.files, c.printed ++ shown⟩) ∨
      ∃ e, d.scopeTree job.registry job.options = .error e ∧ job.printStage d c = .error e c := by
  rw [printStage]
  cases job.dump with
  | none => exact .inl ⟨"", by rw [String.append_empty]; rfl⟩
  | some stage =>
    cases stage with
    | tree => exact .inl ⟨d.write ++ "\n", by rw [← String.append_assoc]; rfl⟩
    | scopes =>
      cases d.scopeTree job.registry job.options with
      | ok t => exact .inl ⟨t.table.render ++ "\n", by rw [← String.append_assoc]; rfl⟩
      | error e => exact .inr ⟨e, rfl, rfl⟩

/-- Brings the text of a unit to where it goes. -/
def deliver (p : Path) (text : String) : Build Unit :=
  match job.destination.target? (Script.ofFile p "") with
  | some target => Build.writeFile target text
  | none => Build.printLine text

theorem deliver_cases (p : Path) (text : String) :
    (∃ c', job.deliver p text c = .ok () c' ∧
      (∀ target, job.destination.target? (Script.ofFile p "") = some target → c'.files.read target = .ok text) ∧
      (job.destination.target? (Script.ofFile p "") = none → c'.printed = c.printed ++ text ++ "\n")) ∨
      ∃ cause c', job.deliver p text c = .error (.fault cause none) c' ∧ c.files.SameFiles c'.files := by
  rw [deliver]
  cases job.destination.target? (Script.ofFile p "") with
  | none => exact .inl ⟨_, rfl, by simp, fun _ => rfl⟩
  | some target =>
    rcases Build.writeFile_cases c target text with ⟨c', hWrite, hRead⟩ | hFailed
    · refine .inl ⟨c', hWrite, ?_, by simp⟩
      rintro _ ⟨⟩
      exact hRead
    · exact .inr hFailed

variable {job c} {p : Path}

/-- The output of a unit is found without its content. -/
theorem target?_ofFile (destination : Destination) (content : String) :
    destination.target? (Script.ofFile p content) = destination.target? (Script.ofFile p "") := by
  cases destination <;> rfl

theorem buildUnit_of_read {content : String} (hRead : c.files.read p = .ok content) :
    job.buildUnit p c = (Build.query (Document.load content (Script.ofFile p content).name) >>= fun d =>
      job.printStage d >>= fun _ =>
      Build.query (d.compile job.registry job.options) >>= job.deliver p) c := by
  rw [buildUnit, run_bind_of_ok (Build.readScript_of_read c hRead), target?_ofFile _ content]
  rfl

theorem buildUnit_of_load {content : String} {d : Document} (hRead : c.files.read p = .ok content)
    (hLoad : Document.load content (Script.ofFile p content).name = .ok d) :
    job.buildUnit p c = (job.printStage d >>= fun _ =>
      Build.query (d.compile job.registry job.options) >>= job.deliver p) c := by
  rw [buildUnit_of_read hRead, hLoad]
  rfl

/-- A unit with a module text comes as far as delivering it. -/
theorem buildUnit_of_text {text : String} (hText : job.moduleText? c.files p = some text) :
    ∃ shown, job.buildUnit p c = job.deliver p text ⟨c.files, c.printed ++ shown⟩ := by
  rw [moduleText?] at hText
  split at hText
  · rename_i content hRead
    cases hCompiled : compileText content (Script.ofFile p content).name job.registry job.options with
    | error e =>
      rw [hCompiled] at hText
      cases hText
    | ok code =>
      rw [hCompiled] at hText
      cases hText
      obtain ⟨d, hLoad, hCompile⟩ := exists_of_bind_eq_ok hCompiled
      obtain ⟨t, hTree, _⟩ := exists_of_bind_eq_ok hCompile
      rw [buildUnit_of_load hRead hLoad]
      rcases job.printStage_cases c d with ⟨shown, hShown⟩ | ⟨e, hNone, _⟩
      · refine ⟨shown, ?_⟩
        rw [run_bind_of_ok hShown, hCompile]
        rfl
      · rw [hTree] at hNone
        cases hNone
  · cases hText

theorem buildUnit_of_uncompiled {content : String} {d : Document} {e : Failure}
    (hRead : c.files.read p = .ok content) (hLoad : Document.load content (Script.ofFile p content).name = .ok d)
    (hCompile : d.compile job.registry job.options = .error e) :
    ∃ cause loc c', job.buildUnit p c = .error (.fault cause loc) c' ∧ c'.files = c.files := by
  rw [buildUnit_of_load hRead hLoad]
  rcases job.printStage_cases c d with ⟨shown, hShown⟩ | ⟨failure, hTree, hStage⟩
  · obtain ⟨cause, loc, rfl⟩ := Document.compile_eq_error hCompile
    refine ⟨cause, loc, ⟨c.files, c.printed ++ shown⟩, ?_, rfl⟩
    rw [run_bind_of_ok hShown, hCompile]
    rfl
  · -- The scopes that could not be shown are those that the module text needs too.
    have hSame : d.compile job.registry job.options = .error failure := by
      rw [Document.compile, hTree]
      rfl
    obtain ⟨cause, loc, rfl⟩ := Document.compile_eq_error hSame
    exact ⟨cause, loc, c, run_bind_of_error hStage _, rfl⟩

/-- A unit without a module text fails before anything is written. -/
theorem buildUnit_of_textless (hText : job.moduleText? c.files p = none) :
    ∃ cause loc c', job.buildUnit p c = .error (.fault cause loc) c' ∧ c'.files = c.files := by
  cases hRead : c.files.read p with
  | error reason =>
    exact ⟨_, none, c, run_bind_of_error (Build.readScript_of_unread c hRead) _, rfl⟩
  | ok content =>
    cases hLoad : Document.load content (Script.ofFile p content).name with
    | error e =>
      obtain ⟨reason, rfl⟩ := Document.load_eq_error hLoad
      refine ⟨.document (Script.ofFile p content).name reason, none, c, ?_, rfl⟩
      rw [buildUnit_of_read hRead, hLoad]
      rfl
    | ok d =>
      cases hCompile : d.compile job.registry job.options with
      | error e => exact buildUnit_of_uncompiled hRead hLoad hCompile
      | ok text =>
        rw [moduleText?_eq_some hRead hLoad hCompile] at hText
        cases hText

/-! ## Runs of attempts -/

theorem sound_of_built {c' : Console} (h : job.buildUnit p c = .ok () c') :
    Attempt.Sound ⟨p, c, c', none⟩ job := by
  cases hText : job.moduleText? c.files p with
  | none =>
    obtain ⟨cause, loc, last, hFailed, _⟩ := buildUnit_of_textless hText
    rw [hFailed] at h
    cases h
  | some text =>
    obtain ⟨shown, hUnit⟩ := buildUnit_of_text hText
    rcases job.deliver_cases ⟨c.files, c.printed ++ shown⟩ p text with
      ⟨last, hDeliver, hFile, hConsole⟩ | ⟨cause, last, hFailed, _⟩
    · obtain rfl : last = c' := by
        rw [hUnit, hDeliver] at h
        cases h
        rfl
      refine ⟨by simp [hText], by simp, fun _ => ⟨text, hText, hFile, fun hNone => ⟨shown, hConsole hNone⟩⟩⟩
    · rw [hUnit, hFailed] at h
      cases h

theorem sound_of_failed {c' : Console} {e : Failure} (h : job.buildUnit p c = .error e c') :
    Attempt.Sound ⟨p, c, c', some e⟩ job := by
  cases hText : job.moduleText? c.files p with
  | none =>
    obtain ⟨cause, loc, last, hFailed, hFiles⟩ := buildUnit_of_textless hText
    rw [hFailed] at h
    cases h
    refine ⟨fun _ => ⟨rfl, hFiles⟩, ?_, by simp⟩
    rintro _ ⟨⟩
    refine ⟨⟨cause, loc, rfl⟩, ?_⟩
    rw [hFiles]
    exact sameFiles_of_changes .refl
  | some text =>
    obtain ⟨shown, hUnit⟩ := buildUnit_of_text hText
    rcases job.deliver_cases ⟨c.files, c.printed ++ shown⟩ p text with
      ⟨last, hDeliver, _⟩ | ⟨cause, last, hFailed, hFiles⟩
    · rw [hUnit, hDeliver] at h
      cases h
    · rw [hUnit, hFailed] at h
      cases h
      refine ⟨by simp [hText], ?_, by simp⟩
      rintro _ ⟨⟩
      exact ⟨⟨cause, none, rfl⟩, hFiles⟩

theorem Runs.sound {attempts : List Attempt} {last : Console} (h : job.Runs c attempts last) :
    ∀ a ∈ attempts, a.Sound job := by
  induction h with
  | nil => simp
  | built hUnit _ ih => exact List.forall_mem_cons.mpr ⟨sound_of_built hUnit, ih⟩
  | failed hUnit _ ih => exact List.forall_mem_cons.mpr ⟨sound_of_failed hUnit, ih⟩

/-- Every path is attempted; what is told and the count of failures grow by the failing attempts. -/
theorem buildUnits_runs (paths : List Path) (s : Progress) :
    ∃ attempts, job.Runs s.console attempts (job.buildUnits paths s).console ∧
      attempts.map Attempt.path = paths ∧
      (job.buildUnits paths s).notices = s.notices ++ (Attempt.failures attempts).map FailedUnit.notice ∧
      (job.buildUnits paths s).failures = s.failures + (Attempt.failures attempts).length := by
  induction paths generalizing s with
  | nil => exact ⟨[], .nil s.console, rfl, (List.append_nil _).symm, rfl⟩
  | cons p rest ih =>
    rw [buildUnits]
    cases hUnit : job.buildUnit p s.console with
    | ok _ c =>
      obtain ⟨attempts, hRuns, hPaths, hNotices, hFailures⟩ := ih (s.pass c)
      exact ⟨⟨p, s.console, c, none⟩ :: attempts, .built hUnit hRuns, by rw [List.map_cons, hPaths], hNotices,
        hFailures⟩
    | error e c =>
      obtain ⟨attempts, hRuns, hPaths, hNotices, hFailures⟩ := ih (s.miss c p e)
      refine ⟨⟨p, s.console, c, some e⟩ :: attempts, .failed hUnit hRuns, by rw [List.map_cons, hPaths], ?_, ?_⟩
      · exact hNotices.trans (List.append_assoc ..)
      · exact hFailures.trans (Nat.add_right_comm ..)

end Job

/-! ## The whole build -/

namespace Outcome

/-- A build of these paths is accounted for by these attempts: there is one for each path and in their
order, what the last one leaves is what the build leaves, and each failing one is told in one line. -/
structure Accounts (o : Outcome) (job : Job) (t : FileTree) (paths : List Path) (attempts : List Attempt) :
    Prop where
  inOrder : attempts.map Attempt.path = paths
  leaves : ∃ last, job.Runs ⟨t, ""⟩ attempts last ∧ o.files = last.files ∧ o.printed = last.printed
  sound : ∀ a ∈ attempts, a.Sound job
  told : ∀ report, o.notices.map (Notice.line report) =
    (Attempt.failures attempts).map (fun u => "error[" ++ u.path.text ++ "]: " ++ report u.failure) ++
      if 0 < (Attempt.failures attempts).length then
        [s!"error: {(Attempt.failures attempts).length} of {paths.length} units failed"]
      else if 1 < paths.length then [s!"compiled {paths.length} units"]
      else []
  code : o.code = if 0 < (Attempt.failures attempts).length then 1 else 0

theorem lines_conclude (s : Progress) (units : Nat) (report : Failure → String) :
    (s.conclude units).notices.map (Notice.line report) = s.notices.map (Notice.line report) ++
      if 0 < s.failures then [s!"error: {s.failures} of {units} units failed"]
      else if 1 < units then [s!"compiled {units} units"]
      else [] := by
  rw [Progress.conclude]
  split
  · exact List.map_append
  · split
    · exact List.map_append
    · exact (List.append_nil _).symm

/-- A failing unit neither stops nor hides the others. -/
theorem every_unit_is_accounted {r : BuildRequest} {t : FileTree} {job : Job} {paths : List Path}
    (hPrepare : r.prepare t = .ok (job, paths)) : ∃ attempts, (build r t).Accounts job t paths attempts := by
  obtain ⟨attempts, hRuns, hPaths, hNotices, hFailures⟩ := job.buildUnits_runs paths (.start t)
  have hCount : (job.buildUnits paths (.start t)).failures = (Attempt.failures attempts).length :=
    hFailures.trans (Nat.zero_add _)
  simp only [build, hPrepare, Progress.failures_conclude, Progress.console_conclude]
  refine ⟨attempts, hPaths, ⟨_, hRuns, rfl, rfl⟩, hRuns.sound, fun report => ?_, ?_⟩
  · rw [lines_conclude, hNotices, hCount, List.map_append, List.map_map]
    rfl
  · rw [hCount]

/-- The first input is missing; the second is still built. -/
theorem missing_unit_is_accounted :
    (build (twoInputs "z" "y") (twoUnits "x" "y")).code = 1 ∧
      (build (twoInputs "z" "y") (twoUnits "x" "y")).files.read ⟨"o/y.js"⟩ = .ok (moduleOf "") ∧
      ∃ attempts, (build (twoInputs "z" "y") (twoUnits "x" "y")).Accounts twoUnitsJob (twoUnits "x" "y")
        [⟨"a/z"⟩, ⟨"b/y"⟩] attempts :=
  ⟨by decide +kernel, by decide +kernel, every_unit_is_accounted (by rfl)⟩

end Outcome
end TreeLowering
