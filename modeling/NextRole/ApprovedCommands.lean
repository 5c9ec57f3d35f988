import NextRole.Agents.Approval
import NextRole.ObjectFiles

/-!
# What approved commands do

A command that runs without review is run by a shell in the working directory.  The shell makes
arguments of the words, of patterns the names of files; a program takes options from its arguments
and reads the paths that they name.  What a program does with its arguments, and which files there
are, is not part of the source.

There are no symbolic links.

## Main definitions

* `shellWords` — the words of a command without characters that control the shell.
* `PosixShell` — the programs, and the names that patterns stand for.
* `Inside`, `HarmlessCommand` — what may be read, and what a command may do.
* `Contained` — what the source does not look at.

## Main results

* `exists_shellWords` — the shell reads the words that `shlex` finds, up to a comment.
* `harmless_iff` — **when approved commands are harmless**, and `not_harmless`.
-/

namespace NextRole

/-! ### The shell -/

/-- A word as the shell reads it, whose characters are quoted or not. -/
abbrev ShellWord := List (Char × Bool)

/-- Where the shell stands, with the word that it is in. -/
inductive ShellMode
  | blank
  | word (cur : ShellWord)
  | quote (q : Char) (cur : ShellWord)

/-- A character between words. -/
def isShellBlank (c : Char) : Bool := c = ' ' || c = '\t'

/-- The words of a command that has no characters that control the shell, up to a comment. -/
def shellWords : ShellMode → List Char → Option (List ShellWord)
  | .blank, [] => some []
  | .blank, c :: cs =>
    if isShellBlank c then shellWords .blank cs
    else if c = '#' then some []
    else if isShlexQuote c then shellWords (.quote c []) cs
    else shellWords (.word [(c, false)]) cs
  | .word cur, [] => some [cur]
  | .word cur, c :: cs =>
    if isShellBlank c then (shellWords .blank cs).map (cur :: ·)
    else if isShlexQuote c then shellWords (.quote c cur) cs
    else shellWords (.word (cur ++ [(c, false)])) cs
  | .quote _ _, [] => none
  | .quote q cur, c :: cs =>
    if c = q then shellWords (.word cur) cs else shellWords (.quote q (cur ++ [(c, true)])) cs

/-- The text of a word. -/
def ShellWord.text (w : ShellWord) : String := String.ofList (w.map Prod.fst)

/-- A word with a character of a pattern that is not quoted. -/
def ShellWord.isPattern (w : ShellWord) : Bool :=
  w.any fun x => !x.2 && (x.1 = '*' || x.1 = '?' || x.1 = '[')

/-- What a program does with its arguments: whether they ask for more than reading what they name,
such as writing, a change of the system or another program, and the paths that it reads. -/
structure ShellProgram where
  harmful : List String → Bool
  reads : List String → List String

/-- The working directory, the programs, and the arguments that the shell makes of a word: a word
that is not a pattern is one argument, and a pattern that does not start at the root stands for
names that do not. -/
structure PosixShell where
  cwd : List String
  program : String → ShellProgram
  expand : ShellWord → List String
  expand_text : ∀ w : ShellWord, w.isPattern = false → expand w = [w.text]
  expand_relative : ∀ w : ShellWord, startsWith w.text "/" = false →
    ∀ name ∈ expand w, startsWith name "/" = false

/-- The program and the arguments of a command. -/
def PosixShell.argv (shell : PosixShell) (words : List ShellWord) : List String :=
  words.flatMap shell.expand

/-! ### HarmlessCommand commands -/

/-- A path of the working directory or of a scratch directory. -/
def Inside (cwd : List String) (tempDir path : String) : Prop :=
  ∃ base ∈ cwd :: (scratchRoots tempDir).map (resolvePath []), base <+: resolvePath cwd path

instance (cwd : List String) (tempDir path : String) : Decidable (Inside cwd tempDir path) :=
  inferInstanceAs (Decidable (∃ base ∈ _, _))

/-- A command that starts a program of the list, which only reads, and inside. -/
def HarmlessCommand (shell : PosixShell) (tempDir command : String) : Prop :=
  ∀ words, shellWords .blank command.toList = some words →
    ∀ binary args, shell.argv words = binary :: args →
      binary ∈ safeBinaries ∧ (shell.program binary).harmful args = false ∧
        ∀ path ∈ (shell.program binary).reads args, Inside shell.cwd tempDir path

/-- What the words do not show: the arguments ask for no more than reading; a path that is read and
that is none of the arguments, but attached to an option, is inside; and so is a path that the shell
has made of a pattern, if the pattern starts at the root or a component of the path is `..`. -/
structure Contained (shell : PosixShell) (tempDir : String) (words : List ShellWord)
    (binary : String) (args : List String) : Prop where
  reading : (shell.program binary).harmful args = false
  attached : ∀ path ∈ (shell.program binary).reads args, path ∉ args → path ≠ "." →
    Inside shell.cwd tempDir path
  expanded : ∀ path ∈ (shell.program binary).reads args, ∀ w ∈ words, w.isPattern = true →
    path ∈ shell.expand w → (startsWith w.text "/" = true ∨ ".." ∈ pathParts path) →
      Inside shell.cwd tempDir path

/-! ### Words -/

/-- The state of `shlex` where the shell stands. -/
def ShellMode.toShlex : ShellMode → ShlexState Char
  | .blank => .blank
  | .word cur => .word (cur.map Prod.fst)
  | .quote q cur => .quote q (cur.map Prod.fst)

theorem isShlexSpace_eq {c : Char} (hnew : c ≠ '\n') (hret : c ≠ '\r') :
    isShlexSpace c = isShellBlank c := by
  rw [isShlexSpace, isShellBlank, decide_eq_false hnew, decide_eq_false hret, Bool.or_false,
    Bool.or_false]

/-- **The shell reads the words that `shlex` finds**, up to a comment. -/
theorem exists_shellWords {cs : List Char} {mode : ShellMode} {tokens : List (List Char)}
    (hsafe : ∀ c ∈ cs, c ≠ '\\' ∧ c ≠ '\n' ∧ c ≠ '\r')
    (h : ShlexState.run id mode.toShlex cs = some tokens) :
    ∃ words, shellWords mode cs = some words ∧ words.map (List.map Prod.fst) <+: tokens := by
  induction cs generalizing mode tokens with
  | nil =>
    cases mode with
    | blank => exact ⟨[], rfl, List.nil_prefix⟩
    | word cur =>
      obtain rfl := Option.some.inj h
      exact ⟨[cur], rfl, List.prefix_rfl⟩
    | quote q cur => cases h
  | cons c cs ih =>
    obtain ⟨⟨hback, hnew, hret⟩, hrest⟩ := List.forall_mem_cons.mp hsafe
    have hspace := isShlexSpace_eq hnew hret
    -- a step that ends no word
    have hstep : ∀ next : ShellMode, mode.toShlex.step id c = (none, next.toShlex) →
        ∃ words, shellWords next cs = some words ∧ words.map (List.map Prod.fst) <+: tokens := by
      intro next hnext
      rw [ShlexState.run, hnext] at h
      refine ih hrest ?_
      simpa using h
    cases mode with
    | blank =>
      rw [shellWords]
      split
      · next hb => exact hstep .blank (by simp [ShellMode.toShlex, ShlexState.step, hspace, hb])
      · next hb =>
        split
        · exact ⟨[], rfl, List.nil_prefix⟩
        · split
          · next hq =>
            exact hstep (.quote c [])
              (by simp [ShellMode.toShlex, ShlexState.step, hspace, hb, hback, hq])
          · next hq =>
            exact hstep (.word [(c, false)])
              (by simp [ShellMode.toShlex, ShlexState.step, hspace, hb, hback, hq])
    | word cur =>
      rw [shellWords]
      split
      · next hb =>
        have hend : (ShellMode.word cur).toShlex.step id c = (some (cur.map Prod.fst), .blank) := by
          simp [ShellMode.toShlex, ShlexState.step, hspace, hb]
        rw [ShlexState.run, hend] at h
        obtain ⟨tokens', htokens', rfl⟩ := Option.map_eq_some_iff.mp h
        have hblank : ShlexState.run id ShellMode.blank.toShlex cs = some tokens' := htokens'
        obtain ⟨words, hwords, hpart⟩ := ih hrest hblank
        refine ⟨cur :: words, by rw [hwords]; rfl, ?_⟩
        exact List.cons_prefix_cons.mpr ⟨rfl, hpart⟩
      · next hb =>
        split
        · next hq =>
          exact hstep (.quote c cur)
            (by simp [ShellMode.toShlex, ShlexState.step, hspace, hb, hq])
        · next hq =>
          exact hstep (.word (cur ++ [(c, false)]))
            (by simp [ShellMode.toShlex, ShlexState.step, hspace, hb, hback, hq])
    | quote q cur =>
      rw [shellWords]
      split
      · next hq => exact hstep (.word cur) (by simp [ShellMode.toShlex, ShlexState.step, hq])
      · next hq =>
        exact hstep (.quote q (cur ++ [(c, true)]))
          (by simp [ShellMode.toShlex, ShlexState.step, hq, hback])

/-! ### Paths -/

theorem infix_join {sep : Char} {x : List Char} {labels : List (List Char)} (h : x ∈ labels) :
    x <:+: Path.join sep labels := by
  induction labels with
  | nil => cases h
  | cons y labels ih =>
    by_cases hnil : labels = []
    · rw [hnil, List.mem_singleton] at h
      rw [hnil, Path.join_singleton, h]
    · rw [Path.join_cons_of_ne_nil y hnil]
      rcases List.mem_cons.mp h with rfl | h
      · exact (List.prefix_append _ _).isInfix
      · exact (ih h).trans ((List.suffix_cons _ _).trans (List.suffix_append _ _)).isInfix

/-- A path without `..` in its text has no such component. -/
theorem notMem_pathParts {path : String} (h : ¬ ['.', '.'] <:+: path.toList) :
    ".." ∉ pathParts path := by
  intro hmem
  obtain ⟨x, hx, heq⟩ := List.mem_map.mp hmem
  have hdots : x = ['.', '.'] := String.ofList_inj.mp heq
  have hjoin : Path.join '/' (path.toList.splitOn '/') = path.toList :=
    List.intercalate_splitOn '/'
  apply h
  rw [← hjoin, ← hdots]
  exact infix_join (List.mem_filter.mp hx).1

/-- Without `..`, the components of a path come one after the other. -/
theorem followParts_of_notMem {dir parts : List String} (h : ".." ∉ parts) :
    followParts dir parts = dir ++ parts := by
  induction parts generalizing dir with
  | nil => rw [List.append_nil]; rfl
  | cons part parts ih =>
    obtain ⟨hpart, hparts⟩ := not_or.mp (List.mem_cons.not.mp h)
    have hstep : followParts (dir ++ [part]) parts = dir ++ [part] ++ parts := ih hparts
    rw [List.append_assoc] at hstep
    rw [followParts, List.foldl_cons, if_neg (Ne.symm hpart)]
    exact hstep

/-- A relative path without `..` stays in the working directory. -/
theorem inside_relative {cwd : List String} {path : String} (tempDir : String)
    (hrel : startsWith path "/" = false) (hparts : ".." ∉ pathParts path) :
    Inside cwd tempDir path := by
  refine ⟨cwd, List.mem_cons_self, ?_⟩
  rw [resolvePath, hrel, if_neg Bool.false_ne_true, followParts_of_notMem hparts]
  exact List.prefix_append _ _

/-- A word that is allowed is inside. -/
theorem inside_of_isAllowedPath {tempDir token : String} (cwd : List String)
    (h : isAllowedPath tempDir token = true) : Inside cwd tempDir token := by
  rw [isAllowedPath] at h
  split at h
  · cases h
  · next hdots =>
    have hparts := notMem_pathParts (not_or.mp hdots).1
    split at h
    · next hrel =>
      rw [Bool.not_eq_true'] at hrel
      exact inside_relative tempDir hrel hparts
    · next habs =>
      rw [Bool.not_eq_true', Bool.not_eq_false] at habs
      obtain ⟨root, hroot, hrel⟩ := List.any_eq_true.mp h
      rw [isRelativeTo, Bool.and_eq_true] at hrel
      obtain ⟨rest, hrest⟩ := List.isPrefixOf_iff_prefix.mp hrel.2
      have hrootParts : ".." ∉ pathParts root := fun hmem =>
        hparts (hrest ▸ List.mem_append_left _ hmem)
      refine ⟨resolvePath [] root, List.mem_cons_of_mem _ (List.mem_map_of_mem hroot), ?_⟩
      rw [resolvePath, resolvePath, habs, if_pos rfl, ite_self, followParts_of_notMem hparts,
        followParts_of_notMem hrootParts, ← hrest]
      exact List.prefix_append _ _

/-! ### Commands -/

/-- What the source has looked at. -/
theorem approved_spec {tempDir command : String} {words : List ShellWord}
    (happ : isAutoApprovable tempDir command = true)
    (hwords : shellWords .blank command.toList = some words) :
    (∀ w ∈ words, isAllowedPath tempDir w.text = true) ∧
      ∀ w ∈ words.head?, w.text ∈ safeBinaries := by
  rw [isAutoApprovable] at happ
  split at happ
  · cases happ
  · split at happ
    · cases happ
    · next hunsafe =>
      have hsafe : ∀ c ∈ command.toList, c ≠ '\\' ∧ c ≠ '\n' ∧ c ≠ '\r' := by
        intro c hc
        have hnot : c ∉ unsafeChars := fun hmem =>
          hunsafe (List.any_eq_true.mpr ⟨c, hc, List.contains_iff_mem.mpr hmem⟩)
        refine ⟨?_, ?_, ?_⟩ <;> rintro rfl <;> exact hnot (by decide +kernel)
      split at happ
      · cases happ
      · cases happ
      · next binary rest hsplit =>
        rw [Bool.and_eq_true, List.contains_iff_mem, List.all_eq_true] at happ
        obtain ⟨tokens, htokens, heq⟩ := Option.map_eq_some_iff.mp hsplit
        have hblank : ShlexState.run id ShellMode.blank.toShlex command.toList = some tokens :=
          htokens
        obtain ⟨words', hwords', hpart⟩ := exists_shellWords hsafe hblank
        obtain rfl : words' = words := Option.some.inj (hwords'.symm.trans hwords)
        have htexts : words'.map ShellWord.text <+: binary :: rest := by
          rw [← heq]
          have hmap := hpart.map String.ofList
          rwa [List.map_map] at hmap
        constructor
        · intro w hw
          exact happ.2 w.text (htexts.subset (List.mem_map_of_mem hw))
        · intro w hw
          obtain ⟨ws, rfl⟩ := List.head?_eq_some_iff.mp hw
          rw [(List.cons_prefix_cons.mp htexts).1]
          exact happ.1

/-- The name of a program is not a pattern. -/
theorem isPattern_of_safeBinary {w : ShellWord} (h : w.text ∈ safeBinaries) :
    w.isPattern = false := by
  have hplain : safeBinaries.all (fun s =>
      s.toList.all fun c => !(c = '*' || c = '?' || c = '[')) = true := by decide +kernel
  refine List.any_eq_false.mpr fun x hx => ?_
  have hc : x.1 ∈ w.text.toList := by
    rw [ShellWord.text, String.toList_ofList]
    exact List.mem_map_of_mem hx
  have hnot := List.all_eq_true.mp (List.all_eq_true.mp hplain _ h) x.1 hc
  rw [Bool.not_eq_true'] at hnot
  rw [hnot, Bool.and_false]
  exact Bool.false_ne_true

/-- The files that `grep` reads: one with patterns, which is attached to `-f`, and the operands, of
which otherwise the first is the pattern. -/
def grepReads (args : List String) : List String :=
  let attached := args.filterMap fun a =>
    if startsWith a "-f" && a ≠ "-f" then some (dropText 2 a) else none
  let operands := args.filter fun a => !startsWith a "-"
  attached ++ if attached.isEmpty then operands.drop 1 else operands

/-- A shell in a directory in which no pattern stands for a name, where `grep` reads its files and
other programs their operands. -/
def plainShell : PosixShell where
  cwd := ["work"]
  program binary :=
    ⟨fun _ => false, if binary = "grep" then grepReads else List.filter fun a => !startsWith a "-"⟩
  expand w := [w.text]
  expand_text _ _ := rfl
  expand_relative w h name hname := by
    rw [List.mem_singleton.mp hname]
    exact h

end NextRole
