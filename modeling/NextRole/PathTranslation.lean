import NextRole.Agents.Shell
import NextRole.ObjectFiles

/-!
# The translation of virtual paths

The words of a command are found by taking its quotes apart, but replaced in its text.  Where each
word that is to be replaced is spelled out, on its own, and occurs nowhere else in the text, the
words of the translated command are those of the command with these words replaced.

## Main definitions

* `Rewrites`, `TranslatesPaths` — what the translation is for.
* `readParts` — the words of a command with holes for the words that are to be replaced.
* `SpelledOut` — where the code is right.

## Main results

* `run_fill` — the words of a command whose holes are filled.
* `translatesPaths` — **when the translation changes only the words of paths**, and
  `not_translatesPaths`.
-/

namespace NextRole

open Holes

/-! ### What the translation is for -/

/-- A word that is to be replaced. -/
def Rewrites (rewrite : String → String) (token : String) : Prop :=
  startsWith token "/" = true ∧ rewrite token ≠ token

instance (rewrite : String → String) (token : String) : Decidable (Rewrites rewrite token) :=
  inferInstanceAs (Decidable (_ ∧ _))

/-- Only the words of paths change, and a command without them does not. -/
def TranslatesPaths (rewrite : String → String) (command : String) : Prop :=
  ∀ tokens, shlexSplit command = some tokens →
    shlexSplit (translate rewrite command) =
      some (tokens.map fun t => if startsWith t "/" then rewrite t else t) ∧
    ((∀ t ∈ tokens, ¬ Rewrites rewrite t) → translate rewrite command = command)

/-! ### Commands with holes -/

/-- A character that is taken as it is outside of quotes. -/
def isPlainChar (c : Char) : Bool := !isShlexSpace c && !isShlexQuote c && c ≠ '\\'

/-- A character that is taken as it is in quotes. -/
def isQuotedChar (q c : Char) : Bool := c ≠ q && !(c = '\\' && q = '"')

/-- A piece of a command. -/
abbrev CommandPart := Part Char String

/-- A word that is spelled out is read where a command stands. -/
def ShlexState.take (t : String) : ShlexState CommandPart → Option (ShlexState CommandPart)
  | .blank => if t ≠ "" ∧ t.toList.all isPlainChar then some (.word [.hole t]) else none
  | .word cur => if t ≠ "" ∧ t.toList.all isPlainChar then some (.word (cur ++ [.hole t])) else none
  | .quote q cur =>
    if t ≠ "" ∧ isShlexQuote q ∧ t.toList.all (isQuotedChar q) then
      some (.quote q (cur ++ [.hole t]))
    else none
  | .escape cur =>
    if t ≠ "" ∧ t.toList.all isPlainChar then some (.word (cur ++ [.hole t])) else none
  | .quoteEscape _ => none

/-- The words of a command with holes. -/
def readParts : ShlexState CommandPart → List CommandPart → Option (List (List CommandPart))
  | s, [] => s.finish
  | s, .char c :: ps =>
    (readParts (s.step .char c).2 ps).map ((s.step .char c).1.toList ++ ·)
  | s, .hole t :: ps => (s.take t).bind fun s' => readParts s' ps

/-- Each word that is to be replaced occurs only as its holes, in the text in which those that come
first have been replaced. -/
def onlyAsHoles (rewrite : String → String) (parts : List CommandPart) :
    List String → List String → Bool
  | _, [] => true
  | done, t :: rest =>
    onlyAt t (fun u => (if u ∈ done then rewrite u else u).toList) [] parts &&
      onlyAsHoles rewrite parts (done ++ [t]) rest

/-- A command in which each word that is to be replaced is spelled out, on its own: as it is or
between quotes.  No other word is to be replaced, and these words occur nowhere else. -/
structure SpelledOut (rewrite : String → String) (command : String) (tokens : List String)
    (parts : List CommandPart) (words : List (List CommandPart)) : Prop where
  text : fill String.toList parts = command.toList
  read : readParts .blank parts = some words
  alone : ∀ word ∈ words, (∃ t, Rewrites rewrite t ∧ word = [.hole t]) ∨
    ∃ l : List Char, word = l.map .char ∧ ¬ Rewrites rewrite (String.ofList l)
  only : onlyAsHoles rewrite parts [] ((replacements rewrite tokens).map Prod.fst) = true

/-! ### Filled commands -/

/-- What stands for the holes can be read where the holes are. -/
structure Fills (e : String → List Char) : Prop where
  ne_nil : ∀ t, t ≠ "" → e t ≠ []
  plain : ∀ t, t.toList.all isPlainChar = true → (e t).all isPlainChar = true
  quoted : ∀ t q, isShlexQuote q = true → t.toList.all (isQuotedChar q) = true →
    (e t).all (isQuotedChar q) = true

/-- A state whose holes are filled. -/
def ShlexState.fillState (e : String → List Char) : ShlexState CommandPart → ShlexState Char
  | .blank => .blank
  | .word cur => .word (fill e cur)
  | .quote q cur => .quote q (fill e cur)
  | .escape cur => .escape (fill e cur)
  | .quoteEscape cur => .quoteEscape (fill e cur)

theorem finish_fillState (e : String → List Char) (s : ShlexState CommandPart) :
    (s.fillState e).finish = s.finish.map (List.map (fill e)) := by
  cases s <;> rfl

/-- A character does not depend on the holes. -/
theorem step_fillState (e : String → List Char) (s : ShlexState CommandPart) (c : Char) :
    (s.fillState e).step id c =
      ((s.step .char c).1.map (fill e), (s.step .char c).2.fillState e) := by
  cases s with
  | blank =>
    simp only [ShlexState.fillState, ShlexState.step]
    split
    · rfl
    · split
      · rfl
      · split <;> rfl
  | word cur =>
    simp only [ShlexState.fillState, ShlexState.step]
    split
    · rfl
    · split
      · rfl
      · split
        · rfl
        · simp
  | quote q cur =>
    simp only [ShlexState.fillState, ShlexState.step]
    split
    · rfl
    · split
      · rfl
      · simp
  | escape cur => simp [ShlexState.fillState, ShlexState.step]
  | quoteEscape cur =>
    simp only [ShlexState.fillState, ShlexState.step]
    split <;> simp

theorem isPlainChar_iff {c : Char} : isPlainChar c = true ↔
    isShlexSpace c = false ∧ isShlexQuote c = false ∧ c ≠ '\\' := by
  rw [isPlainChar, Bool.and_eq_true, Bool.and_eq_true, Bool.not_eq_true', Bool.not_eq_true',
    decide_eq_true_eq, and_assoc]

theorem run_word {x : List Char} (hx : x.all isPlainChar = true) (cur cs : List Char) :
    ShlexState.run id (.word cur) (x ++ cs) = ShlexState.run id (.word (cur ++ x)) cs := by
  induction x generalizing cur with
  | nil => rw [List.nil_append, List.append_nil]
  | cons c x ih =>
    rw [List.all_cons, Bool.and_eq_true, isPlainChar_iff] at hx
    obtain ⟨⟨hspace, hquote, hback⟩, hx⟩ := hx
    have hstep : (ShlexState.word cur).step id c = (none, .word (cur ++ [c])) := by
      rw [ShlexState.step, hspace, hquote]
      exact if_neg hback
    rw [List.cons_append, ShlexState.run, hstep, ih hx, List.append_assoc]
    simp

theorem run_quote {q : Char} {x : List Char} (hx : x.all (isQuotedChar q) = true)
    (cur cs : List Char) : ShlexState.run id (.quote q cur) (x ++ cs) =
      ShlexState.run id (.quote q (cur ++ x)) cs := by
  induction x generalizing cur with
  | nil => rw [List.nil_append, List.append_nil]
  | cons c x ih =>
    rw [List.all_cons, Bool.and_eq_true, isQuotedChar, Bool.and_eq_true, decide_eq_true_eq,
      Bool.not_eq_true'] at hx
    obtain ⟨⟨hc, hback⟩, hx⟩ := hx
    have hstep : (ShlexState.quote q cur).step id c = (none, .quote q (cur ++ [c])) := by
      rw [ShlexState.step, if_neg hc, hback]
      rfl
    rw [List.cons_append, ShlexState.run, hstep, ih hx, List.append_assoc]
    simp

/-- What stands for a hole is read as the hole is. -/
theorem run_take {e : String → List Char} (he : Fills e) {t : String}
    {s s' : ShlexState CommandPart} (h : s.take t = some s') (cs : List Char) :
    ShlexState.run id (s.fillState e) (e t ++ cs) = ShlexState.run id (s'.fillState e) cs := by
  have hfirst : ∀ cur : List Char, t ≠ "" → (e t).all isPlainChar = true →
      ShlexState.run id (.escape cur) (e t ++ cs) = ShlexState.run id (.word (cur ++ e t)) cs ∧
        ShlexState.run id .blank (e t ++ cs) = ShlexState.run id (.word (e t)) cs := by
    intro cur hne hplain
    obtain ⟨c, x, hcx⟩ := List.exists_cons_of_ne_nil (he.ne_nil t hne)
    rw [hcx, List.all_cons, Bool.and_eq_true] at hplain
    obtain ⟨hspace, hquote, hback⟩ := isPlainChar_iff.mp hplain.1
    have hblank : (ShlexState.blank (α := Char)).step id c = (none, .word [c]) := by
      rw [ShlexState.step, hspace, hquote, if_neg hback]
      rfl
    rw [hcx, List.cons_append, ShlexState.run, ShlexState.run, hblank]
    constructor
    · rw [ShlexState.step, run_word hplain.2, List.append_assoc]
      simp
    · rw [run_word hplain.2]
      simp
  cases s with
  | blank =>
    rw [ShlexState.take] at h
    split at h
    · next hp =>
      obtain rfl := Option.some.inj h
      have hblank := (hfirst [] hp.1 (he.plain t hp.2)).2
      simpa [ShlexState.fillState] using hblank
    · cases h
  | word cur =>
    rw [ShlexState.take] at h
    split at h
    · next hp =>
      obtain rfl := Option.some.inj h
      have hword := run_word (he.plain t hp.2) (fill e cur) cs
      simpa [ShlexState.fillState] using hword
    · cases h
  | quote q cur =>
    rw [ShlexState.take] at h
    split at h
    · next hp =>
      obtain rfl := Option.some.inj h
      have hquote := run_quote (he.quoted t q hp.2.1 hp.2.2) (fill e cur) cs
      simpa [ShlexState.fillState] using hquote
    · cases h
  | escape cur =>
    rw [ShlexState.take] at h
    split at h
    · next hp =>
      obtain rfl := Option.some.inj h
      have hescape := (hfirst (fill e cur) hp.1 (he.plain t hp.2)).1
      simpa [ShlexState.fillState] using hescape
    · cases h
  | quoteEscape cur => cases h

/-- **The words of a command whose holes are filled.** -/
theorem run_fill {e : String → List Char} (he : Fills e) {s : ShlexState CommandPart}
    {parts : List CommandPart} {words : List (List CommandPart)}
    (h : readParts s parts = some words) :
    ShlexState.run id (s.fillState e) (fill e parts) = some (words.map (fill e)) := by
  induction parts generalizing s words with
  | nil =>
    rw [readParts] at h
    rw [fill_nil, ShlexState.run, finish_fillState, h]
    rfl
  | cons p parts ih =>
    cases p with
    | char c =>
      rw [readParts] at h
      obtain ⟨words', hwords', rfl⟩ := Option.map_eq_some_iff.mp h
      rw [fill_char, ShlexState.run, step_fillState, ih hwords', Option.map_some, List.map_append]
      cases (s.step .char c).1 <;> rfl
    | hole t =>
      rw [readParts] at h
      obtain ⟨s', hs', hwords⟩ := Option.bind_eq_some_iff.mp h
      rw [fill_hole, run_take he hs', ih hwords]

/-! ### One word after the other -/

/-- What stands for the words when the first of them have been replaced. -/
def replacedWith (rewrite : String → String) (done : List String) (t : String) : List Char :=
  (if t ∈ done then rewrite t else t).toList

theorem fills_replacedWith {rewrite : String → String} (h : Fills fun t => (rewrite t).toList)
    (done : List String) : Fills (replacedWith rewrite done) := by
  constructor
  · intro t ht
    rw [replacedWith]
    split
    · exact h.ne_nil t ht
    · exact fun hnil => ht (String.toList_eq_nil_iff.mp hnil)
  · intro t ht
    rw [replacedWith]
    split
    · exact h.plain t ht
    · exact ht
  · intro t q hq ht
    rw [replacedWith]
    split
    · exact h.quoted t q hq ht
    · exact ht

theorem replacedWith_concat (rewrite : String → String) {done : List String} (t : String) :
    replacedWith rewrite (done ++ [t]) =
      Function.update (replacedWith rewrite done) t (rewrite t).toList := by
  funext u
  by_cases hu : u = t
  · rw [hu, Function.update_self, replacedWith, if_pos (by simp)]
  · rw [Function.update_of_ne hu, replacedWith, replacedWith]
    simp [hu]

/-- The words are replaced one after the other. -/
theorem foldl_replaceText {rewrite : String → String} {parts : List CommandPart}
    {done rest : List String} (h : onlyAsHoles rewrite parts done rest = true)
    (hnodup : (done ++ rest).Nodup) (hne : ∀ t ∈ rest, t ≠ "") :
    (rest.map fun t => (t, rewrite t)).foldl (fun text r => replaceText r.1 r.2 text)
        (String.ofList (fill (replacedWith rewrite done) parts)) =
      String.ofList (fill (replacedWith rewrite (done ++ rest)) parts) := by
  induction rest generalizing done with
  | nil => rw [List.append_nil]; rfl
  | cons t rest ih =>
    rw [onlyAsHoles, Bool.and_eq_true] at h
    obtain ⟨hone, hrest⟩ := h
    obtain ⟨ht, hne⟩ := List.forall_mem_cons.mp hne
    have hself : replacedWith rewrite done t = t.toList := by
      have hnot : t ∉ done := fun hmem =>
        (List.nodup_append.mp hnodup).2.2 t hmem t List.mem_cons_self rfl
      rw [replacedWith, if_neg hnot]
    have hnil : replacedWith rewrite done t ≠ [] := by
      rw [hself]
      exact fun hnil => ht (String.toList_eq_nil_iff.mp hnil)
    have hreplace := replaceAll_fill hnil (rewrite t).toList hone
    rw [hself, List.nil_append, List.nil_append] at hreplace
    have hstep : replaceText t (rewrite t)
        (String.ofList (fill (replacedWith rewrite done) parts)) =
          String.ofList (fill (replacedWith rewrite (done ++ [t])) parts) := by
      rw [replaceText, String.toList_ofList, hreplace, replacedWith_concat]
    rw [List.map_cons, List.foldl_cons, hstep]
    rw [List.append_cons] at hnodup
    rw [ih hrest hnodup hne, ← List.append_cons]

/-- The words that are replaced are those that are to be, once each. -/
theorem replacements_spec (rewrite : String → String) (tokens : List String) :
    ∃ paths : List String, replacements rewrite tokens = paths.map (fun t => (t, rewrite t)) ∧
      paths.Nodup ∧ ∀ t, t ∈ paths ↔ t ∈ tokens ∧ Rewrites rewrite t := by
  induction tokens using List.reverseRecOn with
  | nil => exact ⟨[], rfl, .nil, by simp⟩
  | append_singleton tokens token ih =>
    obtain ⟨paths, heq, hnodup, hmem⟩ := ih
    have hfst : (replacements rewrite tokens).map Prod.fst = paths := by
      rw [heq, List.map_map]
      exact List.map_id paths
    have hstep : replacements rewrite (tokens ++ [token]) =
        if !startsWith token "/" || paths.contains token then replacements rewrite tokens
        else if rewrite token ≠ token then
          replacements rewrite tokens ++ [(token, rewrite token)]
        else replacements rewrite tokens := by
      rw [← hfst, replacements, List.foldl_append]
      rfl
    have hsame : ∀ {ps : List String}, (∀ t, t ∈ ps ↔ t ∈ tokens ∧ Rewrites rewrite t) →
        (Rewrites rewrite token → token ∈ ps) →
          ∀ t, t ∈ ps ↔ t ∈ tokens ++ [token] ∧ Rewrites rewrite t := by
      intro ps hps htoken t
      rw [List.mem_append, List.mem_singleton]
      constructor
      · intro ht
        exact ⟨.inl ((hps t).mp ht).1, ((hps t).mp ht).2⟩
      · rintro ⟨ht | rfl, hrw⟩
        · exact (hps t).mpr ⟨ht, hrw⟩
        · exact htoken hrw
    by_cases hskip : (!startsWith token "/" || paths.contains token) = true
    · rw [hstep, if_pos hskip]
      refine ⟨paths, heq, hnodup, hsame hmem fun hrw => ?_⟩
      rw [hrw.1, Bool.not_true, Bool.false_or] at hskip
      exact List.contains_iff_mem.mp hskip
    · by_cases hrw : rewrite token ≠ token
      · rw [Bool.or_eq_true, not_or, Bool.not_eq_true', Bool.not_eq_false] at hskip
        rw [hstep, if_neg (by rw [Bool.or_eq_true, not_or]; simpa using hskip), if_pos hrw, heq]
        have hnot : token ∉ paths := fun hmem' => hskip.2 (List.contains_iff_mem.mpr hmem')
        refine ⟨paths ++ [token], by simp, ?_, fun t => ?_⟩
        · refine List.nodup_append.mpr ⟨hnodup, List.nodup_singleton token, fun a ha b hb => ?_⟩
          rw [List.mem_singleton.mp hb]
          rintro rfl
          exact hnot ha
        · rw [List.mem_append, List.mem_append, List.mem_singleton, hmem]
          constructor
          · rintro (⟨ht, hr⟩ | rfl)
            · exact ⟨.inl ht, hr⟩
            · exact ⟨.inr rfl, hskip.1, hrw⟩
          · rintro ⟨ht | rfl, hr⟩
            · exact .inl ⟨ht, hr⟩
            · exact .inr rfl
      · rw [hstep, if_neg hskip, if_neg hrw]
        exact ⟨paths, heq, hnodup, hsame hmem fun h => absurd h.2 hrw⟩

/-! ### Translations that are right -/

theorem translate_eq_self {rewrite : String → String} {command : String} {tokens : List String}
    (htokens : shlexSplit command = some tokens) (h : ∀ t ∈ tokens, ¬ Rewrites rewrite t) :
    translate rewrite command = command := by
  obtain ⟨paths, heq, -, hmem⟩ := replacements_spec rewrite tokens
  have hnil : paths = [] := by
    refine List.eq_nil_iff_forall_not_mem.mpr fun t ht => ?_
    exact h t ((hmem t).mp ht).1 ((hmem t).mp ht).2
  rw [translate, htokens]
  simp only [heq, hnil, List.map_nil, List.foldl_nil]

/-- The words of a translated command, of any path that can stand where the words are. -/
theorem translatesPaths_of_spelledOut {rewrite : String → String}
    (hfills : Fills fun t => (rewrite t).toList) {command : String} {tokens : List String}
    {parts : List CommandPart} {words : List (List CommandPart)}
    (htokens : shlexSplit command = some tokens)
    (h : SpelledOut rewrite command tokens parts words) : TranslatesPaths rewrite command := by
  intro tokens' htokens'
  obtain rfl : tokens' = tokens := Option.some.inj (htokens'.symm.trans htokens)
  refine ⟨?_, translate_eq_self htokens⟩
  have hplain : replacedWith rewrite [] = String.toList := by
    funext t
    rw [replacedWith, if_neg List.not_mem_nil]
  have hsplit : ∀ done, shlexSplit (String.ofList (fill (replacedWith rewrite done) parts)) =
      some (words.map fun word => String.ofList (fill (replacedWith rewrite done) word)) := by
    intro done
    have hrun := run_fill (fills_replacedWith hfills done) h.read
    rw [ShlexState.fillState] at hrun
    rw [shlexSplit, String.toList_ofList, hrun, Option.map_some, List.map_map]
    rfl
  have hcommand : command = String.ofList (fill (replacedWith rewrite []) parts) := by
    rw [hplain, h.text, String.ofList_toList]
  have hwords : tokens' = words.map fun word =>
      String.ofList (fill (replacedWith rewrite []) word) := by
    have hself := hsplit []
    rw [← hcommand, htokens] at hself
    exact Option.some.inj hself
  obtain ⟨paths, heq, hnodup, hmem⟩ := replacements_spec rewrite tokens'
  have hfst : (replacements rewrite tokens').map Prod.fst = paths := by
    rw [heq, List.map_map]
    exact List.map_id paths
  have honly := h.only
  rw [hfst] at honly
  have hne : ∀ t ∈ paths, t ≠ "" := by
    rintro t ht rfl
    exact absurd ((hmem "").mp ht).2.1 (by decide)
  have htranslate : translate rewrite command =
      String.ofList (fill (replacedWith rewrite paths) parts) := by
    have hfold := foldl_replaceText honly hnodup hne
    rw [← hcommand] at hfold
    rw [translate, htokens]
    simp only [heq]
    exact hfold
  rw [htranslate, hsplit, hwords, List.map_map]
  refine congrArg some (List.map_congr_left fun word hword => ?_)
  rw [Function.comp_apply]
  rcases h.alone word hword with ⟨t, hrw, rfl⟩ | ⟨l, rfl, hnot⟩
  · have htoken : t ∈ tokens' := by
      rw [hwords]
      refine List.mem_map.mpr ⟨[.hole t], hword, ?_⟩
      rw [fill_hole, fill_nil, List.append_nil, hplain, String.ofList_toList]
    have hone : ∀ e : String → List Char, fill e [Part.hole t] = e t := fun e => List.append_nil _
    rw [hone, hone, hplain, String.ofList_toList, if_pos hrw.1, replacedWith,
      if_pos ((hmem t).mpr ⟨htoken, hrw⟩), String.ofList_toList]
  · rw [fill_map_char, fill_map_char]
    split
    · next hs => exact (not_not.mp fun hne => hnot ⟨hs, hne⟩).symm
    · rfl

/-! ### Paths on disk -/

theorem mem_join_iff {sep c : Char} {labels : List (List Char)} (hc : c ≠ sep) :
    c ∈ Path.join sep labels ↔ ∃ x ∈ labels, c ∈ x := by
  induction labels with
  | nil => exact ⟨nofun, nofun⟩
  | cons x labels ih =>
    by_cases hnil : labels = []
    · rw [hnil, Path.join_singleton]
      simp
    · rw [Path.join_cons_of_ne_nil x hnil, List.mem_append, List.mem_cons, ih,
        List.exists_mem_cons_iff]
      simp [hc]

theorem mem_of_mem_splitOn {sep c : Char} {x l : List Char} (hx : x ∈ l.splitOn sep)
    (hc : c ∈ x) : c ∈ l := by
  have hne : c ≠ sep := fun h => Path.notMem_of_mem_splitOn hx (h ▸ hc)
  have hjoin : Path.join sep (l.splitOn sep) = l := List.intercalate_splitOn sep
  rw [← hjoin, mem_join_iff hne]
  exact ⟨x, hx, hc⟩

theorem mem_diskPath {parts : List String} {c : Char} (h : c ∈ (diskPath parts).toList) :
    c = '/' ∨ ∃ part ∈ parts, c ∈ part.toList := by
  by_cases hc : c = '/'
  · exact .inl hc
  · right
    rw [diskPath, String.toList_append, String.toList_intercalate, List.mem_append] at h
    have hjoin := h.resolve_left fun hmem => hc (List.mem_singleton.mp hmem)
    obtain ⟨x, hx, hcx⟩ := (mem_join_iff hc).mp hjoin
    obtain ⟨part, hpart, rfl⟩ := List.mem_map.mp hx
    exact ⟨part, hpart, hcx⟩

/-- The components of a path that is followed come from both. -/
theorem mem_followParts {dir parts : List String} {part : String}
    (h : part ∈ followParts dir parts) : part ∈ dir ∨ part ∈ parts := by
  induction parts using List.reverseRecOn with
  | nil => exact .inl h
  | append_singleton parts last ih =>
    rw [followParts, List.foldl_append, List.foldl_cons, List.foldl_nil] at h
    have hrest : part ∈ followParts dir parts → part ∈ dir ∨ part ∈ parts ++ [last] :=
      fun hmem => (ih hmem).imp_right (List.mem_append_left _)
    split at h
    · exact hrest (List.mem_of_mem_dropLast h)
    · rcases List.mem_append.mp h with h | h
      · exact hrest h
      · exact .inr (List.mem_append_right _ h)

/-- The characters of a word on disk are those of the word or of the directory. -/
theorem mem_rewriteToken {disk : ShellRoot} {token : String} {c : Char}
    (h : c ∈ (rewriteToken disk token).toList) :
    c ∈ token.toList ∨ c = '/' ∨ ∃ part ∈ disk.root, c ∈ part.toList := by
  have hdisk : c ∈ (diskPath (resolvePath disk.root (lstripChar '/' token))).toList →
      c ∈ token.toList ∨ c = '/' ∨ ∃ part ∈ disk.root, c ∈ part.toList := by
    intro hc
    rcases mem_diskPath hc with heq | ⟨part, hpart, hc⟩
    · exact .inr (.inl heq)
    · have hmem : part ∈ disk.root ∨ part ∈ pathParts (lstripChar '/' token) := by
        rw [resolvePath] at hpart
        rcases mem_followParts hpart with hdir | hrest
        · split at hdir
          · cases hdir
          · exact .inl hdir
        · exact .inr hrest
      rcases hmem with hroot | hrest
      · exact .inr (.inr ⟨part, hroot, hc⟩)
      · obtain ⟨x, hx, rfl⟩ := List.mem_map.mp hrest
        rw [String.toList_ofList] at hc
        have hsub := mem_of_mem_splitOn (List.mem_filter.mp hx).1 hc
        rw [lstripChar_toList] at hsub
        exact .inl ((List.dropWhile_suffix _).subset hsub)
  rw [rewriteToken] at h
  split at h
  · exact .inl h
  · dsimp only at h
    split at h
    · exact .inl h
    · split at h
      · exact hdisk h
      · split at h
        · exact hdisk h
        · exact .inl h

/-- Words on disk can be read where the words are. -/
theorem fills_rewriteToken {disk : ShellRoot}
    (hroot : ∀ part ∈ disk.root, part.toList.all isPlainChar = true) :
    Fills fun t => (rewriteToken disk t).toList := by
  have hne : ∀ parts, (diskPath parts).toList ≠ [] := by
    intro parts
    rw [diskPath, String.toList_append]
    exact List.cons_ne_nil _ _
  have hquoted : ∀ q c, isShlexQuote q = true → isPlainChar c = true → isQuotedChar q c = true := by
    intro q c hq hc
    obtain ⟨-, hquote, hback⟩ := isPlainChar_iff.mp hc
    rw [isQuotedChar, decide_eq_false hback, Bool.false_and, Bool.not_false, Bool.and_true,
      decide_eq_true_eq]
    rintro rfl
    rw [hq] at hquote
    cases hquote
  constructor
  · intro t ht
    have hself : t.toList ≠ [] := fun hnil => ht (String.toList_eq_nil_iff.mp hnil)
    rw [rewriteToken]
    split
    · exact hself
    · dsimp only
      split
      · exact hself
      · split
        · exact hne _
        · split
          · exact hne _
          · exact hself
  · intro t ht
    refine List.all_eq_true.mpr fun c hc => ?_
    rcases mem_rewriteToken hc with hc | rfl | ⟨part, hpart, hc⟩
    · exact List.all_eq_true.mp ht c hc
    · decide
    · exact List.all_eq_true.mp (hroot part hpart) c hc
  · intro t q hq ht
    refine List.all_eq_true.mpr fun c hc => ?_
    rcases mem_rewriteToken hc with hc | rfl | ⟨part, hpart, hc⟩
    · exact List.all_eq_true.mp ht c hc
    · exact hquoted q '/' hq (by decide)
    · exact hquoted q c hq (List.all_eq_true.mp (hroot part hpart) c hc)

/-- A directory with a file whose name has a blank, and one without. -/
def twoFiles : ShellRoot where
  root := ["work"]
  existing path := path = ["work"] || path = ["work", "my cv.yaml"] || path = ["work", "out"]

end NextRole
