import NextRole.Agents.Scratch
import NextRole.Lib.Words
import NextRole.ObjectKeys

/-!
# Scratch files stay in their thread

What a query exports is a file of the thread's directory, whatever the model calls it.  The path of
a figure is taken as it is, so it may name any file; and threads whose ids are not plain share one
directory.

## Main definitions

* `InScratch` — a file directly inside the directory of a thread.
* `ScratchConfined` — two runs access files of their own directories alone.

## Main results

* `resolvePath_writePath` — where an export is written.
* `scratchConfined_iff` — **when scratch is confined to the thread**, and `not_scratchConfined`.
-/

namespace NextRole

/-- The directory of a run. -/
def ToolRun.dir (host : ScratchHost) (cwd : List String) (run : ToolRun) : List String :=
  resolvePath cwd (run.scratch host).dir

/-- A file directly inside the directory of a run. -/
def InScratch (host : ScratchHost) (cwd : List String) (run : ToolRun) (file : List String) : Prop :=
  ∃ name, file = run.dir host cwd ++ [name]

/-- Both runs access files directly inside their own directory alone, and runs of different threads
access none of each other's. -/
structure ScratchConfined (host : ScratchHost) (cwd : List String) (run run' : ToolRun) : Prop where
  own : ∀ file ∈ run.accesses host cwd, InScratch host cwd run file
  own' : ∀ file ∈ run'.accesses host cwd, InScratch host cwd run' file
  other : run.threadId ≠ run'.threadId →
    ∀ file ∈ run.accesses host cwd, ¬ InScratch host cwd run' file
  other' : run.threadId ≠ run'.threadId →
    ∀ file ∈ run'.accesses host cwd, ¬ InScratch host cwd run file

/-! ### Segments and paths -/

theorem not_isSpace_of_getLast?_strip {s : String} {c : Char}
    (h : (strip s).toList.getLast? = some c) : isSpace c = false := by
  rw [strip_toList] at h
  exact Path.not_of_getLast?_dropWhile h

/-- A text that is taken, or the fallback. -/
theorem isSafeSegment_safeSegment (raw : Option String) {fallback : String}
    (h : isSafeSegment fallback.toList = true) :
    isSafeSegment (safeSegment raw fallback).toList = true := by
  unfold safeSegment
  dsimp only
  split
  · next hmatch =>
    rw [matchesSafeSegment, Bool.or_eq_true, Bool.and_eq_true, decide_eq_true_eq] at hmatch
    rcases hmatch with hsafe | ⟨hlast, -⟩
    · exact hsafe
    · exact absurd (not_isSpace_of_getLast?_strip hlast) (by decide)
  · exact h

/-- A safe segment is one component of a path, and not the parent. -/
theorem isSegment_of_safe {l : List Char} (h : isSafeSegment l = true) :
    Path.IsSegment '/' keepsPart l ∧ l ≠ ['.', '.'] := by
  cases l with
  | nil => cases h
  | cons c cs =>
    simp only [isSafeSegment, Bool.and_eq_true, decide_eq_true_eq, List.all_eq_true] at h
    obtain ⟨⟨hc, hcs⟩, -⟩ := h
    have hdot : c ≠ '.' := by
      rintro rfl
      exact absurd hc (by decide)
    refine ⟨⟨fun hmem => ?_, ?_⟩, fun heq => hdot (List.cons.inj heq).1⟩
    · rcases List.mem_cons.mp hmem with rfl | hmem
      · exact absurd hc (by decide)
      · exact absurd (hcs _ hmem) (by decide)
    · rw [keepsPart, Bool.and_eq_true, decide_eq_true_eq, decide_eq_true_eq]
      exact ⟨List.cons_ne_nil _ _, fun heq => hdot (List.cons.inj heq).1⟩

/-- One safe segment more. -/
theorem resolvePath_append {cwd : List String} {path name : String} (hpath : path ≠ "")
    (hname : isSafeSegment name.toList = true) :
    resolvePath cwd (path ++ "/" ++ name) = resolvePath cwd path ++ [name] := by
  obtain ⟨hsegment, hparent⟩ := isSegment_of_safe hname
  have hstart : startsWith (path ++ "/" ++ name) "/" = startsWith path "/" := by
    simp only [startsWith, String.toList_append]
    cases hl : path.toList with
    | nil => exact absurd (String.toList_inj.mp (by rw [hl]; rfl)) hpath
    | cons c cs => rfl
  have hparts : pathParts (path ++ "/" ++ name) = pathParts path ++ [name] := by
    have htext : (path ++ "/" ++ name).toList = path.toList ++ '/' :: name.toList := by
      simp only [String.toList_append, List.append_assoc]
      rfl
    rw [pathParts, htext, Path.segments_append_cons, List.map_append, hsegment.segments_eq,
      List.map_singleton, String.ofList_toList]
    rfl
  have hne : name ≠ ".." := fun heq => hparent (by rw [heq]; rfl)
  rw [resolvePath, resolvePath, hstart, hparts, followParts, List.foldl_append]
  simp only [List.foldl_cons, List.foldl_nil, if_neg hne]
  rfl

/-! ### The directories of runs -/

section Runs

variable {host : ScratchHost} {cwd : List String} {run run' : ToolRun}

theorem isSafeSegment_toolThreadId (current : Option String) :
    isSafeSegment (toolThreadId current).toList = true :=
  isSafeSegment_safeSegment current (by decide)

/-- The directory of all scratch directories. -/
def scratchRoot (host : ScratchHost) : String :=
  match host with
  | .host tempDir => tempDir ++ "/" ++ scratchRootName
  | .sandbox => "/tmp/" ++ scratchRootName

theorem append_ne_empty (s : String) {t : String} (ht : t ≠ "") : s ++ t ≠ "" := by
  intro h
  have hlen := congrArg String.length h
  rw [String.length_append, String.length_empty] at hlen
  exact ht (String.length_eq_zero_iff.mp (by omega))

theorem dir_eq (host : ScratchHost) (cwd : List String) (run : ToolRun) :
    run.dir host cwd = resolvePath cwd (scratchRoot host) ++ [toolThreadId run.threadId] := by
  have hdir : (run.scratch host).dir = scratchRoot host ++ "/" ++ toolThreadId run.threadId := by
    cases host <;> rfl
  have hroot : scratchRoot host ≠ "" := by
    cases host with
    | host tempDir => exact append_ne_empty _ (by decide)
    | sandbox => decide
  rw [ToolRun.dir, hdir, resolvePath_append hroot (isSafeSegment_toolThreadId _)]

theorem dir_eq_iff : run.dir host cwd = run'.dir host cwd ↔
    toolThreadId run.threadId = toolThreadId run'.threadId := by
  rw [dir_eq, dir_eq, List.append_cancel_left_eq, List.singleton_inj]

theorem resolvePath_writePath (saveAs : String) :
    InScratch host cwd run (resolvePath cwd ((run.scratch host).writePath
      (safeSegment (some saveAs) "result.csv"))) := by
  refine ⟨safeSegment (some saveAs) "result.csv", ?_⟩
  have hne : (run.scratch host).dir ≠ "" := by
    cases host <;>
      exact append_ne_empty _ fun h => absurd (isSafeSegment_toolThreadId run.threadId)
        (by rw [h]; decide)
  exact resolvePath_append hne (isSafeSegment_safeSegment _ (by decide))

/-- The figures that a run reads are named by paths to files directly inside its directory. -/
def FiguresInside (host : ScratchHost) (cwd : List String) (run : ToolRun) : Prop :=
  ∀ figurePath, .figure figurePath ∈ run.calls → figurePath ≠ "" →
    ∀ path ∈ (run.scratch host).readPath? figurePath, InScratch host cwd run (resolvePath cwd path)

/-- A run stays in its directory exactly if its figures are there. -/
theorem accesses_inScratch_iff : (∀ file ∈ run.accesses host cwd, InScratch host cwd run file) ↔
    FiguresInside host cwd run := by
  simp only [ToolRun.accesses, List.mem_filterMap, Option.map_eq_some_iff]
  constructor
  · intro h figurePath hcall hne path hpath
    exact h _ ⟨.figure figurePath, hcall, path, by rw [ScratchCall.path?, if_neg hne]; exact hpath, rfl⟩
  · rintro h file ⟨call, hcall, path, hpath, rfl⟩
    cases call with
    | save saveAs =>
      rw [ScratchCall.path?] at hpath
      split at hpath
      · cases hpath
      · exact Option.some.inj hpath ▸ resolvePath_writePath saveAs
    | figure figurePath =>
      rw [ScratchCall.path?] at hpath
      split at hpath
      · cases hpath
      · next hne => exact h figurePath hcall hne path hpath

theorem dir_eq_of_inScratch {file : List String} (h : InScratch host cwd run file)
    (h' : InScratch host cwd run' file) :
    toolThreadId run.threadId = toolThreadId run'.threadId := by
  obtain ⟨name, rfl⟩ := h
  obtain ⟨name', heq⟩ := h'
  exact dir_eq_iff.mp (List.append_inj_left' heq rfl)

theorem InScratch.congr {file : List String} (h : InScratch host cwd run file)
    (heq : toolThreadId run.threadId = toolThreadId run'.threadId) :
    InScratch host cwd run' file := by
  obtain ⟨name, hname⟩ := h
  refine ⟨name, ?_⟩
  rw [← dir_eq_iff.mpr heq]
  exact hname

/-- **Scratch is confined to the thread** exactly if the figures of both runs are in their
directories, and runs of different threads that access scratch files have different segments. -/
theorem scratchConfined_iff (host : ScratchHost) (cwd : List String) (run run' : ToolRun) :
    ScratchConfined host cwd run run' ↔ FiguresInside host cwd run ∧ FiguresInside host cwd run' ∧
      (run.threadId ≠ run'.threadId →
        toolThreadId run.threadId = toolThreadId run'.threadId →
          run.accesses host cwd = [] ∧ run'.accesses host cwd = []) := by
  constructor
  · rintro ⟨hown, hown', hother, hother'⟩
    refine ⟨accesses_inScratch_iff.mp hown, accesses_inScratch_iff.mp hown', fun hne heq => ?_⟩
    constructor
    · rw [List.eq_nil_iff_forall_not_mem]
      intro file hfile
      exact hother hne file hfile ((hown file hfile).congr heq)
    · rw [List.eq_nil_iff_forall_not_mem]
      intro file hfile
      exact hother' hne file hfile ((hown' file hfile).congr heq.symm)
  · rintro ⟨hfigures, hfigures', happart⟩
    have hown := accesses_inScratch_iff.mpr hfigures
    have hown' := accesses_inScratch_iff.mpr hfigures'
    refine ⟨hown, hown', fun hne file hfile hin => ?_, fun hne file hfile hin => ?_⟩
    · have heq := dir_eq_of_inScratch (hown file hfile) hin
      rw [(happart hne heq).1] at hfile
      cases hfile
    · have heq := dir_eq_of_inScratch hin (hown' file hfile)
      rw [(happart hne heq).2] at hfile
      cases hfile

end Runs

/-- A run of one thread that publishes a figure of another one. -/
def figureOfOther : ToolRun where
  threadId := some "thread-1"
  calls := [.figure "/tmp/nextrole-analytics/thread-2/fig.json"]

theorem not_scratchConfined : ¬ ∀ host cwd run run', ScratchConfined host cwd run run' := by
  intro h
  have hown := (h .sandbox [] figureOfOther figureOfOther).own
    ["tmp", "nextrole-analytics", "thread-2", "fig.json"] (by decide +kernel)
  obtain ⟨name, hname⟩ := hown
  have hdir : figureOfOther.dir .sandbox [] = ["tmp", "nextrole-analytics", "thread-1"] := by
    decide +kernel
  rw [hdir] at hname
  simp at hname

end NextRole
