import Mathlib.Tactic.Common
import TreeLowering.Command.Run
import TreeLowering.Proofs.Command.FileTree
import TreeLowering.Proofs.Emit.ModuleText

/-! # Outputs of a build

Units are read, compiled and written one after the other. After a build without failures every output
location holds the text of the last unit that was written there. -/
namespace TreeLowering
set_option autoImplicit false

open Relation FileTree

namespace Progress

@[simp] theorem failures_conclude (s : Progress) (units : Nat) : (s.conclude units).failures = s.failures := by
  rw [conclude]
  split
  · rfl
  · split <;> rfl

@[simp] theorem console_conclude (s : Progress) (units : Nat) : (s.conclude units).console = s.console := by
  rw [conclude]
  split
  · rfl
  · split <;> rfl

end Progress

/-! ## One unit -/

namespace Build

variable {c c' : Console}

theorem query_eq_ok {α : Type} {r : Result α} {a : α} (h : query r c = .ok a c') : r = .ok a ∧ c' = c := by
  cases r with
  | ok b =>
    cases h
    exact ⟨rfl, rfl⟩
  | error e => cases h

theorem readScript_eq_ok {p : Path} {s : Script} (h : readScript p c = .ok s c') :
    ∃ content, c.files.read p = .ok content ∧ s = Script.ofFile p content ∧ c' = c := by
  obtain ⟨_, _, hGet, hRest⟩ := exists_of_run_eq_ok h
  cases hGet
  cases hRead : c.files.read p with
  | ok content =>
    rw [hRead] at hRest
    cases hRest
    exact ⟨content, rfl, rfl, rfl⟩
  | error e =>
    rw [hRead] at hRest
    cases hRest

theorem makeParent_changes {p : Path} (h : makeParent p c = .ok () c') :
    ReflTransGen (Change fun _ _ => False) c.files c'.files := by
  rw [makeParent] at h
  cases hParent : p.parent? with
  | none =>
    rw [hParent] at h
    cases h
    exact .refl
  | some parent =>
    rw [hParent] at h
    dsimp only at h
    by_cases hEmpty : parent.text.isEmpty = true
    · rw [if_pos hEmpty] at h
      cases h
      exact .refl
    · rw [if_neg hEmpty] at h
      obtain ⟨_, _, hGet, hRest⟩ := exists_of_run_eq_ok h
      cases hGet
      cases hMade : c.files.makeDirectories parent with
      | ok files =>
        rw [hMade] at hRest
        cases hRest
        exact makeDirectoriesFrom_changes hMade
      | error e =>
        rw [hMade] at hRest
        cases hRest

theorem writeFile_eq_ok {p : Path} {s : String} (h : writeFile p s c = .ok () c') :
    ∃ w names, ReflTransGen (Change fun _ _ => False) c.files w ∧ w.locate p = .ok names ∧
      w.node? names ≠ some .directory ∧ c'.files = w.put names (.file (.text s)) := by
  obtain ⟨_, d, hParent, hRest⟩ := exists_of_run_eq_ok h
  obtain ⟨_, _, hGet, hWrite⟩ := exists_of_run_eq_ok hRest
  cases hGet
  cases hPut : d.files.write p s with
  | ok files =>
    rw [hPut] at hWrite
    cases hWrite
    obtain ⟨names, hLocate, hPlain, rfl⟩ := write_eq_ok hPut
    exact ⟨d.files, names, makeParent_changes hParent, hLocate, hPlain, rfl⟩
  | error e =>
    rw [hPut] at hWrite
    cases hWrite

end Build

namespace Job

variable {job : Job} {c c' : Console}

theorem printStage_files {d : Document} (h : job.printStage d c = .ok () c') : c'.files = c.files := by
  rw [printStage] at h
  cases hDump : job.dump with
  | none =>
    rw [hDump] at h
    cases h
    rfl
  | some stage =>
    rw [hDump] at h
    cases stage with
    | tree =>
      cases h
      rfl
    | scopes =>
      obtain ⟨t, _, hQuery, hPrint⟩ := exists_of_run_eq_ok h
      obtain ⟨_, rfl⟩ := Build.query_eq_ok hQuery
      cases hPrint
      rfl

/-- The module text of the document that a path holds. -/
def moduleText? (job : Job) (t : FileTree) (p : Path) : Option String :=
  match t.read p with
  | .ok content => (compileText content (Script.ofFile p content).name job.registry job.options).toOption
  | .error _ => none

theorem buildUnit_eq_ok {p target : Path}
    (hTarget : ∀ content, job.destination.target? (Script.ofFile p content) = some target)
    (h : job.buildUnit p c = .ok () c') :
    ∃ content d text w names, c.files.read p = .ok content ∧
      Document.load content (Script.ofFile p content).name = .ok d ∧
      d.compile job.registry job.options = .ok text ∧ ReflTransGen (Change fun _ _ => False) c.files w ∧
      w.locate target = .ok names ∧ w.node? names ≠ some .directory ∧
      c'.files = w.put names (.file (.text text)) := by
  obtain ⟨script, _, hScript, hLoading⟩ := exists_of_run_eq_ok h
  obtain ⟨content, hRead, rfl, rfl⟩ := Build.readScript_eq_ok hScript
  obtain ⟨d, _, hDocument, hShowing⟩ := exists_of_run_eq_ok hLoading
  obtain ⟨hLoad, rfl⟩ := Build.query_eq_ok hDocument
  obtain ⟨_, shown, hStage, hCompiling⟩ := exists_of_run_eq_ok hShowing
  obtain ⟨text, _, hCode, hWrite⟩ := exists_of_run_eq_ok hCompiling
  obtain ⟨hCompile, rfl⟩ := Build.query_eq_ok hCode
  rw [hTarget] at hWrite
  obtain ⟨w, names, hChanges, hLocate, hPlain, hPut⟩ := Build.writeFile_eq_ok hWrite
  rw [printStage_files hStage] at hChanges
  exact ⟨content, d, text, w, names, hRead, hLoad, hCompile, hChanges, hLocate, hPlain, hPut⟩

/-! ## All units -/

/-- The text of one of the units may be written to the location of its output. -/
def Writes (job : Job) (t : FileTree) (output : Path → Path) (paths : List Path) (u : FileTree)
    (names : List String) (s : String) : Prop :=
  ∃ p ∈ paths, u.locate (output p) = .ok names ∧ job.moduleText? t p = some s

/-- The changes so far have written texts that no document has. -/
def Unspoiled (t u : FileTree) : Prop :=
  ReflTransGen (Change fun _ s => ∀ file d, Document.load s file ≠ .ok d) t u

/-- Failures are counted up only. -/
theorem failures_le (paths : List Path) (s : Progress) : s.failures ≤ (job.buildUnits paths s).failures := by
  induction paths generalizing s with
  | nil => exact Nat.le_refl _
  | cons p rest ih =>
    rw [buildUnits]
    cases job.buildUnit p s.console with
    | ok _ c => exact ih (s.pass c)
    | error e c => exact Nat.le_trans (Nat.le_succ _) (ih (s.miss c p e))

theorem buildUnits_cons_of_failures {p : Path} {rest : List Path} {s last : Progress}
    (h : job.buildUnits (p :: rest) s = last) (hNone : last.failures = s.failures) :
    ∃ d, job.buildUnit p s.console = .ok () d ∧ job.buildUnits rest (s.pass d) = last := by
  rw [buildUnits] at h
  cases hUnit : job.buildUnit p s.console with
  | ok _ d =>
    rw [hUnit] at h
    exact ⟨d, rfl, h⟩
  | error e d =>
    rw [hUnit] at h
    have hCount : s.failures + 1 ≤ last.failures := h ▸ failures_le rest (s.miss d p e)
    omega

theorem moduleText?_eq_some {t : FileTree} {p : Path} {content text : String} {d : Document}
    (hRead : t.read p = .ok content) (hLoad : Document.load content (Script.ofFile p content).name = .ok d)
    (hCompile : d.compile job.registry job.options = .ok text) : job.moduleText? t p = some text := by
  simp only [moduleText?, hRead, compileText, hLoad, bind, Except.bind, hCompile, Except.toOption]

/-- A build without failures writes the text of each unit to its output, and nothing else; in the end an
output holds the text of a unit with that output. -/
theorem buildUnits_writes {t : FileTree} {output : Path → Path}
    (hTarget : ∀ p content, job.destination.target? (Script.ofFile p content) = some (output p))
    {paths : List Path} (hReadable : ∀ p ∈ paths, ∃ s, t.read p = .ok s) {start last : Progress}
    (hBefore : Unspoiled t start.console.files) (h : job.buildUnits paths start = last)
    (hNone : last.failures = start.failures) :
    ReflTransGen (Change (job.Writes t output paths last.console.files)) start.console.files last.console.files ∧
      ∀ p ∈ paths, (∃ text, job.moduleText? t p = some text) ∧
        ∃ names s, last.console.files.locate (output p) = .ok names ∧
          last.console.files.node? names = some (.file (.text s)) ∧
          job.Writes t output paths last.console.files names s := by
  induction paths generalizing start with
  | nil =>
    subst h
    exact ⟨.refl, by simp⟩
  | cons p rest ih =>
    rw [List.forall_mem_cons] at hReadable
    obtain ⟨d, hUnit, hRest⟩ := buildUnits_cons_of_failures h hNone
    obtain ⟨content, document, text, w, names, hRead, hLoad, hCompile, hMade, hLocate, hPlain, hPut⟩ :=
      buildUnit_eq_ok (hTarget p) hUnit
    -- An input that has been written over is no document any more, so this one still is what it was.
    obtain ⟨first, hFirst⟩ := hReadable.1
    obtain rfl : content = first := by
      rcases changes_read hBefore hFirst hRead with hSame | ⟨_, hSpoilt⟩
      · exact hSame
      · exact absurd hLoad (hSpoilt _ document)
    have hModule := moduleText?_eq_some hFirst hLoad hCompile
    have hPrepared {W : List String → String → Prop} : ReflTransGen (Change W) start.console.files w :=
      changes_mono (by simp) hMade
    have hStep {W : List String → String → Prop} (hText : W names text) : Change W w d.files :=
      hPut ▸ .file hText hPlain
    have hAfter : Unspoiled t d.files :=
      (hBefore.trans hPrepared).tail (hStep fun _ _ => Document.load_compile hCompile)
    obtain ⟨hChanges, hOutputs⟩ := ih hReadable.2 hAfter hRest hNone
    have hMore : ∀ ns s, job.Writes t output rest last.console.files ns s →
        job.Writes t output (p :: rest) last.console.files ns s := by
      rintro ns s ⟨q, hq, hWrites⟩
      exact ⟨q, List.mem_cons_of_mem p hq, hWrites⟩
    have hFinal : last.console.files.locate (output p) = .ok names :=
      changes_locate hChanges (changes_locate (.single (hStep (W := fun _ _ => True) trivial)) hLocate)
    have hOwn : job.Writes t output (p :: rest) last.console.files names text :=
      ⟨p, List.mem_cons_self, hFinal, hModule⟩
    refine ⟨(hPrepared.tail (hStep hOwn)).trans (changes_mono hMore hChanges), ?_⟩
    rw [List.forall_mem_cons]
    refine ⟨⟨⟨text, hModule⟩, names, ?_⟩, fun q hq => ?_⟩
    · -- The text stays unless a later unit has the same output.
      have hWritten : (start.pass d).console.files.node? names = some (.file (.text text)) := by
        change d.files.node? names = _
        rw [hPut, node?_put_self _ _ (ne_nil_of_node? hPlain)]
      obtain ⟨final, hLast⟩ := changes_file_kept hChanges hWritten
      rcases changes_file_origin hChanges hLast with hSame | ⟨s, hLater, rfl⟩
      · rw [hWritten] at hSame
        cases hSame
        exact ⟨text, hFinal, hLast, hOwn⟩
      · exact ⟨s, hFinal, hLast, hMore names s hLater⟩
    · obtain ⟨hText, ns, s, hAt, hNode, hLater⟩ := hOutputs q hq
      exact ⟨hText, ns, s, hAt, hNode, hMore ns s hLater⟩

end Job

namespace BuildRequest

/-- Where the text of an input goes if there are several and no file is named for them. -/
def outputOf (r : BuildRequest) (p : Path) : Path :=
  match r.outDir with
  | some directory => directory.join (Script.ofFile p "").outputName
  | none => p.withFileName (Script.ofFile p "").outputName

theorem target?_of_prepare {r : BuildRequest} {t : FileTree} {job : Job} {paths : List Path}
    (hOutput : r.output = none) (hPrepare : r.prepare t = .ok (job, paths)) (hSeveral : 2 ≤ paths.length)
    (p : Path) (content : String) :
    job.destination.target? (Script.ofFile p content) = some (r.outputOf p) := by
  obtain ⟨inputs, _, hOptions⟩ := exists_of_bind_eq_ok hPrepare
  obtain ⟨options, _, hRegistry⟩ := exists_of_bind_eq_ok hOptions
  obtain ⟨registry, _, hJob⟩ := exists_of_bind_eq_ok hRegistry
  split at hJob
  · cases hJob
  · cases hJob
    have hUnits : ¬inputs.flatten.length = 1 := by omega
    rw [destination, hOutput, outputOf]
    cases r.outDir with
    | none =>
      simp only [if_neg hUnits]
      rfl
    | some directory => rfl

end BuildRequest

namespace Outcome

theorem build_eq_of_code {r : BuildRequest} {t : FileTree} {job : Job} {paths : List Path}
    (hPrepare : r.prepare t = .ok (job, paths)) (hCode : (build r t).code = 0) :
    (job.buildUnits paths (.start t)).failures = 0 ∧
      (build r t).files = (job.buildUnits paths (.start t)).console.files := by
  simp only [build, hPrepare, Progress.failures_conclude, Progress.console_conclude, and_true] at hCode ⊢
  by_contra hSome
  rw [if_pos (Nat.pos_of_ne_zero hSome)] at hCode
  cases hCode

/-- After a build of several inputs without failures, every output holds the module text of the document
that its input held before, exactly if all inputs could be read before and inputs with one output
location have the same module text. -/
theorem outputs_kept_iff {r : BuildRequest} {t : FileTree} {job : Job} {paths : List Path}
    (hOutput : r.output = none) (hPrepare : r.prepare t = .ok (job, paths)) (hSeveral : 2 ≤ paths.length)
    (hCode : (build r t).code = 0) :
    (∀ p ∈ paths, ∃ text, job.moduleText? t p = some text ∧
      (build r t).files.read (r.outputOf p) = .ok text) ↔
      (∀ p ∈ paths, ∃ s, t.read p = .ok s) ∧
        ∀ p ∈ paths, ∀ q ∈ paths, ∀ names, (build r t).files.locate (r.outputOf p) = .ok names →
          (build r t).files.locate (r.outputOf q) = .ok names → job.moduleText? t p = job.moduleText? t q := by
  obtain ⟨hNone, hFiles⟩ := build_eq_of_code hPrepare hCode
  rw [hFiles]
  constructor
  · intro hKept
    constructor
    · intro p hp
      obtain ⟨text, hText, _⟩ := hKept p hp
      rw [Job.moduleText?] at hText
      split at hText
      · rename_i content hRead
        exact ⟨content, hRead⟩
      · cases hText
    · intro p hp q hq names hpAt hqAt
      obtain ⟨text, hText, hRead⟩ := hKept p hp
      obtain ⟨text', hText', hRead'⟩ := hKept q hq
      obtain ⟨ns, hAt, hNode⟩ := read_eq_ok_iff.mp hRead
      obtain ⟨ns', hAt', hNode'⟩ := read_eq_ok_iff.mp hRead'
      obtain rfl := Except.ok.inj (hpAt.symm.trans hAt)
      obtain rfl := Except.ok.inj (hqAt.symm.trans hAt')
      rw [hNode] at hNode'
      cases hNode'
      rw [hText, hText']
  · rintro ⟨hReadable, hAgree⟩ p hp
    have hTarget := r.target?_of_prepare hOutput hPrepare hSeveral
    have hStart : Job.Unspoiled t (Progress.start t).console.files := ReflTransGen.refl
    obtain ⟨_, hOutputs⟩ := Job.buildUnits_writes hTarget hReadable hStart rfl hNone
    obtain ⟨⟨text, hText⟩, names, s, hAt, hNode, q, hq, hqAt, hqText⟩ := hOutputs p hp
    refine ⟨text, hText, read_eq_ok_iff.mpr ⟨names, hAt, ?_⟩⟩
    rw [hNode, ← Option.some.inj (hqText.symm.trans ((hAgree q hq p hp names hqAt hAt).trans hText))]

/-- A document with one statement, of a kind that has no parts. -/
def unitText (stmt : String) : String :=
  "\x7b\"root\":\x7b\"type\":\"file\",\"scope\":0,\"stmts\":[\x7b\"type\":\"" ++ stmt ++ "\"\x7d]\x7d\x7d"

def moduleOf (lines : String) : String := "define(function(require) \x7b
    \"use strict\";
    var $G = require(\"angl/globals\");
    var $R = require(\"angl/runtime\");\n" ++ lines ++ "\x7d);"

/-- Documents with different statements in two directories, and a registry without names. -/
def twoUnits (first second : String) : FileTree :=
  (((FileTree.empty []).putFile ["a", first] (.text (unitText "exit"))).putFile ["b", second]
    (.text (unitText "nop"))).putFile ["g"] (.text "\x7b\x7d")

def twoInputs (first second : String) : BuildRequest where
  inputs := ["a/" ++ first, "b/" ++ second]
  outDir := some ⟨"o"⟩
  globals := some ⟨"g"⟩

def twoUnitsJob : Job := ⟨.empty, {}, none, .directory ⟨"o"⟩⟩

theorem distinct_names_keep_outputs :
    (build (twoInputs "x" "y") (twoUnits "x" "y")).code = 0 ∧
      ∀ p ∈ [Path.mk "a/x", Path.mk "b/y"], ∃ text, twoUnitsJob.moduleText? (twoUnits "x" "y") p = some text ∧
        (build (twoInputs "x" "y") (twoUnits "x" "y")).files.read ((twoInputs "x" "y").outputOf p) = .ok text := by
  have hPrepare : (twoInputs "x" "y").prepare (twoUnits "x" "y") =
      .ok (twoUnitsJob, [⟨"a/x"⟩, ⟨"b/y"⟩]) := by rfl
  have hCode : (build (twoInputs "x" "y") (twoUnits "x" "y")).code = 0 := by decide +kernel
  have hFirst : (build (twoInputs "x" "y") (twoUnits "x" "y")).files.locate
      ((twoInputs "x" "y").outputOf ⟨"a/x"⟩) = .ok ["o", "x.js"] := by decide +kernel
  have hSecond : (build (twoInputs "x" "y") (twoUnits "x" "y")).files.locate
      ((twoInputs "x" "y").outputOf ⟨"b/y"⟩) = .ok ["o", "y.js"] := by decide +kernel
  refine ⟨hCode, (outputs_kept_iff rfl hPrepare (by decide) hCode).mpr ⟨?_, ?_⟩⟩
  · simp only [List.forall_mem_cons]
    exact ⟨⟨unitText "exit", by decide +kernel⟩, ⟨unitText "nop", by decide +kernel⟩, by simp⟩
  · intro p hp q hq names hpAt hqAt
    simp only [List.mem_cons, List.not_mem_nil, or_false] at hp hq
    rcases hp with rfl | rfl <;> rcases hq with rfl | rfl
    · rfl
    · exact absurd ((hFirst.symm.trans hpAt).trans (hqAt.symm.trans hSecond)) (by decide)
    · exact absurd ((hFirst.symm.trans hqAt).trans (hpAt.symm.trans hSecond)) (by decide)
    · rfl

/-- Two inputs of the same name in different directories go to one file, and the first text is lost. -/
theorem same_name_loses_output :
    (twoInputs "x" "x").prepare (twoUnits "x" "x") = .ok (twoUnitsJob, [⟨"a/x"⟩, ⟨"b/x"⟩]) ∧
      (build (twoInputs "x" "x") (twoUnits "x" "x")).code = 0 ∧
      twoUnitsJob.moduleText? (twoUnits "x" "x") ⟨"a/x"⟩ = some (moduleOf "    return;\n") ∧
      (build (twoInputs "x" "x") (twoUnits "x" "x")).files.read ((twoInputs "x" "x").outputOf ⟨"a/x"⟩) =
        .ok (moduleOf "") ∧
      moduleOf "" ≠ moduleOf "    return;\n" := by
  refine ⟨by rfl, ?_, ?_, ?_, ?_⟩ <;> decide +kernel

end Outcome
end TreeLowering
