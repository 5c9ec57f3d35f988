import NextRole.Agents.ChartCalls
import NextRole.Lib.Words
import NextRole.ObjectFiles
import NextRole.ScratchConfinement

/-!
# The paths of charts

A chart is stored under its slug: the words of its title, in lower case and joined by dashes, cut
after 60 characters, and one name for all titles without words.  Charts whose titles have one slug
replace each other.

## Main definitions

* `slugWords`, `slugText` — the words of a text, and what is kept of them.
* `ChartCall.CreatedWith` — the chart of a call has a slug, which was passed or is that of its title.
* `ChartsKept` — charts with different titles are kept apart, and a slug replaces its chart.
* `SlugsApart` — no two calls meet in one slug otherwise.

## Main results

* `slugify_toList` — a slug is made of words.
* `slugify_slugify` — a slug is the slug of itself.
* `chartsKept_iff` — **when charts do not overwrite one another**, and `not_chartsKept`.
-/

namespace NextRole

/-! ### Slugs -/

/-- A dash for a character that no slug has. -/
def dashed (c : Char) : Char := if isSlugChar c then c else '-'

/-- The words of a text: the runs of letters and digits, in lower case. -/
def slugWords (text : String) : List (List Char) :=
  Path.words '-' (((strip text).toList.flatMap slugLower).map dashed)

/-- The words joined by dashes and cut after 60 characters; one name without words. -/
def slugText (text : String) : List Char :=
  if slugWords text = [] then "chart".toList
  else ((Path.join '-' (slugWords text)).take 60).rdropWhile fun c => c = '-'

theorem stripRuns_eq (l : List Char) : stripRuns l = Path.collapse '-' (l.map dashed) := by
  induction l with
  | nil => rfl
  | cons c l ih =>
    rw [stripRuns, List.map_cons, Path.collapse, ← ih, dashed]
    by_cases hc : isSlugChar c = true
    · have hne : c ≠ '-' := by
        rintro rfl
        exact absurd hc (by decide)
      rw [if_pos hc, if_pos hc, if_neg fun h => hne h.1]
    · rw [if_neg hc, if_neg hc]
      cases stripRuns l with
      | nil => rfl
      | cons d rest =>
        by_cases hd : d = '-'
        · subst hd
          rfl
        · have hhead : ¬ ('-' = '-' ∧ (d :: rest).head? = some '-') := by simp [hd]
          rw [if_neg hhead]
          split
          · next heq => exact absurd (List.cons.inj heq).1 hd
          · rfl

theorem stripDashes_eq (l : List Char) : stripDashes l = Path.trim '-' l := rfl

theorem stripDashes_stripRuns (text : String) :
    stripDashes (stripRuns ((strip text).toList.flatMap slugLower)) =
      Path.join '-' (slugWords text) := by
  rw [stripRuns_eq, stripDashes_eq, Path.trim_collapse]
  rfl

theorem head?_join_slugWords (text : String) :
    (Path.join '-' (slugWords text)).head? ≠ some '-' := by
  rw [← stripDashes_stripRuns, stripDashes_eq]
  exact Path.head?_trim_ne _ _

theorem join_slugWords_eq_nil_iff {text : String} :
    Path.join '-' (slugWords text) = [] ↔ slugWords text = [] := by
  constructor
  · intro h
    cases hw : slugWords text with
    | nil => rfl
    | cons w ws =>
      have hnil : w = [] := by
        rw [hw] at h
        exact List.prefix_nil.mp (h ▸ Path.prefix_join w ws)
      have hkept := (Path.isSegment_of_mem (hw ▸ List.mem_cons_self : w ∈ slugWords text)).kept
      simp [hnil] at hkept
  · intro h
    rw [h]
    rfl

theorem take_ne_nil {α : Type*} {l : List α} {n : ℕ} (hn : 0 < n) (hl : l ≠ []) :
    l.take n ≠ [] := by
  intro h
  rcases List.take_eq_nil_iff.mp h with h | h
  · omega
  · exact hl h

/-- **A slug is made of words.** -/
theorem slugify_toList (text : String) : (slugify text).toList = slugText text := by
  have htake : ((Path.join '-' (slugWords text)).take 60).head? ≠ some '-' := by
    rw [List.head?_take, if_neg (by omega)]
    exact head?_join_slugWords text
  have htrim : stripDashes ((Path.join '-' (slugWords text)).take 60) =
      ((Path.join '-' (slugWords text)).take 60).rdropWhile fun c => c = '-' :=
    Path.trim_of_head?_ne htake
  rw [slugify, slugText, stripDashes_stripRuns, htrim]
  by_cases hwords : slugWords text = []
  · rw [if_pos hwords, join_slugWords_eq_nil_iff.mpr hwords]
    rfl
  · have hne := take_ne_nil (n := 60) (by omega) (mt join_slugWords_eq_nil_iff.mp hwords)
    rw [if_neg hwords, if_neg, String.toList_ofList]
    rw [List.rdropWhile_eq_nil_iff]
    intro hall
    obtain ⟨c, cs, hcs⟩ := List.exists_cons_of_ne_nil hne
    rw [hcs] at hall htake
    have hc := hall c List.mem_cons_self
    rw [of_decide_eq_true hc] at htake
    exact htake rfl

/-! ### Slugs of slugs -/

/-- A character of a segment is neither white space nor a slash. -/
theorem isSegmentChar_spec {c : Char} (h : isSegmentChar c = true) :
    isSpace c = false ∧ c ≠ '/' ∧ c ≠ '\\' := by
  have hne : ∀ d : Char, isSegmentChar d = false → c ≠ d := by
    rintro d hd rfl
    rw [h] at hd
    cases hd
  have hrange : 45 ≤ c.toNat ∧ c.toNat ≤ 122 := by
    simp only [isSegmentChar, isAsciiAlnum, Bool.or_eq_true, Bool.and_eq_true, decide_eq_true_eq,
      Char.le_def, UInt32.le_iff_toNat_le] at h
    rcases h with ((((h | h) | h) | rfl) | rfl) | rfl
    · change 97 ≤ c.toNat ∧ c.toNat ≤ 122 at h
      omega
    · change 65 ≤ c.toNat ∧ c.toNat ≤ 90 at h
      omega
    · change 48 ≤ c.toNat ∧ c.toNat ≤ 57 at h
      omega
    all_goals decide
  refine ⟨?_, hne _ (by decide), hne _ (by decide)⟩
  simp only [isSpace, List.mem_cons, List.not_mem_nil, or_false, Bool.or_eq_false_iff,
    decide_eq_false_iff_not, Bool.and_eq_false_iff]
  omega

theorem isSegmentChar_of_isSlugChar {c : Char} (h : isSlugChar c = true ∨ c = '-') :
    isSegmentChar c = true := by
  rcases h with h | rfl
  · simp only [isSlugChar, Bool.or_eq_true] at h
    simp only [isSegmentChar, isAsciiAlnum, Bool.or_eq_true]
    tauto
  · decide

/-- Nothing is stripped where there is no white space. -/
theorem strip_of_forall {s : String} (h : ∀ c ∈ s.toList, isSpace c = false) : strip s = s := by
  rw [← String.toList_inj, strip_toList]
  have hr : s.toList.rdropWhile isSpace = s.toList := by
    rw [List.rdropWhile_eq_self_iff]
    intro hne
    rw [h _ (List.getLast_mem hne)]
    exact Bool.false_ne_true
  rw [hr]
  cases hl : s.toList with
  | nil => rfl
  | cons c cs =>
    have hc := h c (by rw [hl]; exact List.mem_cons_self)
    exact List.dropWhile_cons_of_neg (by rw [hc]; exact Bool.false_ne_true)

/-- The characters of slugs stay when a text is put into lower case. -/
theorem slugLower_of_isSlugChar {c : Char} (h : isSlugChar c = true ∨ c = '-') :
    slugLower c = [c] := by
  have hrange : (97 ≤ c.toNat ∧ c.toNat ≤ 122) ∨ (48 ≤ c.toNat ∧ c.toNat ≤ 57) ∨ c.toNat = 45 := by
    rcases h with h | rfl
    · simp only [isSlugChar, Bool.or_eq_true, Bool.and_eq_true, decide_eq_true_eq, Char.le_def,
        UInt32.le_iff_toNat_le] at h
      exact h.imp_right .inl
    · exact .inr (.inr rfl)
  have hlower : c.toLower = c := by
    refine dif_neg fun hupper => ?_
    have hupper' : 65 ≤ c.toNat ∧ c.toNat ≤ 90 := hupper
    omega
  rw [slugLower, if_neg (by omega), if_neg (by omega), hlower]

/-- A text that a slug can be. -/
structure IsSlug (l : List Char) : Prop where
  ne_nil : l ≠ []
  chars : ∀ c ∈ l, isSlugChar c = true ∨ c = '-'
  isChain : l.IsChain fun a b => ¬ (a = '-' ∧ b = '-')
  head : l.head? ≠ some '-'
  last : l.getLast? ≠ some '-'
  length : l.length ≤ 60

theorem isSlug_slugify (text : String) : IsSlug (slugify text).toList := by
  rw [slugify]
  split
  · have hall : "chart".toList.all (fun c => isSlugChar c || c = '-') = true := by decide
    refine ⟨by decide, fun c hc => ?_, by decide, by decide, by decide, by decide⟩
    have hchar := List.all_eq_true.mp hall c hc
    rwa [Bool.or_eq_true, decide_eq_true_eq] at hchar
  · next hne =>
    rw [stripRuns_eq, stripDashes_eq, stripDashes_eq] at hne ⊢
    rw [String.toList_ofList]
    generalize hl : ((strip text).toList.flatMap slugLower).map dashed = l at hne ⊢
    have hpart : Path.trim '-' ((Path.trim '-' (Path.collapse '-' l)).take 60) <:+:
        Path.collapse '-' l :=
      (Path.trim_isInfix _ _).trans ((List.take_prefix _ _).isInfix.trans (Path.trim_isInfix _ _))
    refine ⟨hne, fun c hc => ?_, List.IsChain.infix (Path.isChain_collapse _ _) hpart,
      Path.head?_trim_ne _ _, Path.getLast?_trim_ne _ _, ?_⟩
    · have hmem := (Path.collapse_sublist _ _).subset (hpart.subset hc)
      rw [← hl] at hmem
      obtain ⟨d, -, rfl⟩ := List.mem_map.mp hmem
      rw [dashed]
      split
      · next h => exact .inl h
      · exact .inr rfl
    · exact ((Path.trim_isInfix _ _).length_le).trans (List.length_take_le _ _)

/-- A slug stays as it is. -/
theorem IsSlug.slugify_eq {s : String} (h : IsSlug s.toList) : slugify s = s := by
  have hstrip : strip s = s := strip_of_forall fun c hc =>
    (isSegmentChar_spec (isSegmentChar_of_isSlugChar (h.chars c hc))).1
  have hlower : s.toList.flatMap slugLower = s.toList := by
    conv_rhs => rw [← List.flatMap_singleton' s.toList]
    exact List.flatMap_congr fun c hc => slugLower_of_isSlugChar (h.chars c hc)
  have hdashed : s.toList.map dashed = s.toList := by
    conv_rhs => rw [← List.map_id s.toList]
    refine List.map_congr_left fun c hc => ?_
    rw [dashed]
    split
    · rfl
    · next hno => exact ((h.chars c hc).resolve_left hno).symm
  rw [slugify, hstrip, hlower, stripRuns_eq, hdashed, Path.collapse_eq_self h.isChain,
    stripDashes_eq, stripDashes_eq, Path.trim_eq_self h.head h.last,
    List.take_of_length_le h.length, Path.trim_eq_self h.head h.last]
  rw [if_neg h.ne_nil, String.ofList_toList]

/-- **A slug is the slug of itself.** -/
theorem slugify_slugify (text : String) : slugify (slugify text) = slugify text :=
  (isSlug_slugify text).slugify_eq

/-- **Slugs are the texts that are their own slug**, and every text has one. -/
theorem slugs_eq_fixed :
    (∀ text, IsSlug (slugify text).toList) ∧ ∀ s, slugify s = s ↔ IsSlug s.toList :=
  ⟨isSlug_slugify, fun s => ⟨fun h => h ▸ isSlug_slugify s, IsSlug.slugify_eq⟩⟩

/-! ### Paths of calls -/

/-- The text whose slug names the chart of a call. -/
def ChartCall.label (call : ChartCall) : String := call.givenSlug.getD call.title

/-- The chart of a call has a slug: it was passed, or it is that of the title. -/
def ChartCall.CreatedWith (call : ChartCall) (slug : String) : Prop :=
  call.givenSlug = some slug ∨ call.givenSlug = none ∧ slugify call.title = slug

theorem slugify_ne_empty (text : String) : slugify text ≠ "" := by
  intro h
  exact (isSlug_slugify text).ne_nil (by rw [h]; rfl)

/-- There is an envelope to store. -/
def ChartCall.Succeeds (call : ChartCall) : Prop := ∃ envelope, call.prepared = .ok envelope

/-- The path without its route. -/
def routed (threadId : String) (call : ChartCall) : String :=
  "/" ++ (threadId ++ "/" ++ (slugify call.label ++ ".plotly.json"))

theorem chartPath_specOf (threadId : String) (call : ChartCall) :
    chartPath threadId call.specOf = "/charts" ++ routed threadId call := by
  have hslug : (if call.specOf.slug = "" then slugify call.specOf.title else call.specOf.slug) =
      slugify call.label := by
    simp only [ChartCall.specOf, ChartCall.label]
    obtain hgiven | ⟨s, hgiven⟩ := Option.eq_none_or_eq_some call.givenSlug
    · simp [hgiven]
    · simp [hgiven, slugify_ne_empty s]
  rw [chartPath, hslug, routed, ← String.toList_inj]
  simp

theorem chartsRoute_chartPath (threadId : String) (call : ChartCall) :
    chartsRoute (chartPath threadId call.specOf) = routed threadId call := by
  have hstart : startsWith ("/charts" ++ routed threadId call) "/charts/" = true := by
    refine startsWith_iff.mpr ⟨threadId ++ "/" ++ (slugify call.label ++ ".plotly.json"), ?_⟩
    rw [routed, ← String.append_assoc]
    rfl
  rw [chartsRoute, chartPath_specOf, if_pos hstart]
  exact dropText_append "/charts" _

theorem isSegmentChar_name {call : ChartCall} {c : Char}
    (h : c ∈ (slugify call.label ++ ".plotly.json").toList) : isSegmentChar c = true := by
  rw [String.toList_append, List.mem_append] at h
  rcases h with h | h
  · exact isSegmentChar_of_isSlugChar ((isSlug_slugify call.label).chars c h)
  · have hall : ".plotly.json".toList.all isSegmentChar = true := by decide
    exact List.all_eq_true.mp hall c h

theorem isSegmentChar_of_isSafeSegment {l : List Char} (h : isSafeSegment l = true) {c : Char}
    (hc : c ∈ l) : isSegmentChar c = true := by
  cases l with
  | nil => cases h
  | cons d l =>
    simp only [isSafeSegment, Bool.and_eq_true, List.all_eq_true] at h
    rcases List.mem_cons.mp hc with rfl | hc
    · rw [isSegmentChar, h.1.1]
      rfl
    · exact h.1.2 c hc

/-- The paths of charts are in normal form. -/
theorem safeRelative_routed {threadId : String} (h : isSafeSegment threadId.toList = true)
    (call : ChartCall) : safeRelative (routed threadId call) =
      some (threadId ++ "/" ++ (slugify call.label ++ ".plotly.json")) := by
  obtain ⟨hsegment, hparent⟩ := isSegment_of_safe h
  obtain ⟨c, cs, hcs⟩ := List.exists_cons_of_ne_nil (l := threadId.toList) (by
    intro hnil
    rw [hnil] at h
    cases h)
  have hthread := fun d (hd : d ∈ threadId.toList) =>
    isSegmentChar_spec (isSegmentChar_of_isSafeSegment h hd)
  have hlen : 2 < (slugify call.label ++ ".plotly.json").toList.length := by
    rw [String.toList_append, List.length_append]
    have hext : ".plotly.json".toList.length = 12 := rfl
    omega
  have hname := fun d (hd : d ∈ (slugify call.label ++ ".plotly.json").toList) =>
    isSegmentChar_spec (isSegmentChar_name hd)
  rw [routed]
  generalize slugify call.label ++ ".plotly.json" = name at hlen hname
  have htext : ("/" ++ (threadId ++ "/" ++ name)).toList =
      '/' :: (threadId.toList ++ '/' :: name.toList) := by simp
  have hnameSegment : Path.IsSegment '/' keepsPart name.toList := by
    refine ⟨fun hmem => (hname _ hmem).2.1 rfl, ?_⟩
    simp only [keepsPart, Bool.and_eq_true, decide_eq_true_eq]
    constructor
    · rintro hnil
      rw [hnil] at hlen
      exact absurd hlen (by decide)
    · rintro hdot
      rw [hdot] at hlen
      exact absurd hlen (by decide)
  have hstrip : strip ("/" ++ (threadId ++ "/" ++ name)) = "/" ++ (threadId ++ "/" ++ name) := by
    refine strip_of_forall fun d hd => ?_
    rw [htext, List.mem_cons, List.mem_append, List.mem_cons] at hd
    rcases hd with rfl | hd | rfl | hd
    · decide
    · exact (hthread d hd).1
    · decide
    · exact (hname d hd).1
  have hsegments : pathSegments ("/" ++ (threadId ++ "/" ++ name)) =
      [threadId.toList, name.toList] := by
    rw [pathSegments, hstrip, htext, Path.segments_cons_sep keepsPart_nil,
      Path.segments_append_cons, hsegment.segments_eq, hnameSegment.segments_eq]
    rfl
  refine safeRelative_eq_some.mpr ⟨fun hback => ?_, ?_, ?_, ?_, ?_⟩
  · rw [htext, List.mem_cons, List.mem_append, List.mem_cons] at hback
    rcases hback with hback | hback | hback | hback
    · exact absurd hback (by decide)
    · exact (hthread _ hback).2.2 rfl
    · exact absurd hback (by decide)
    · exact (hname _ hback).2.2 rfl
  · have hc : c ≠ '/' := (hthread c (by rw [hcs]; exact List.mem_cons_self)).2.1
    have htilde : c ≠ '~' := by
      rintro rfl
      rw [hcs, isSafeSegment, Bool.and_eq_true, Bool.and_eq_true] at h
      exact absurd h.1.1 (by decide)
    rw [startsWith, lstripChar_toList, hstrip, htext, hcs, List.dropWhile_cons_of_pos (by simp),
      List.cons_append, List.dropWhile_cons_of_neg (by simpa using hc)]
    rw [Bool.eq_false_iff, Ne, List.isPrefixOf_iff_prefix]
    rintro ⟨t, ht⟩
    exact htilde (List.cons.inj ht).1.symm
  · rw [hsegments]
    exact List.cons_ne_nil _ _
  · rw [hsegments, List.mem_cons, List.mem_singleton, not_or]
    refine ⟨Ne.symm hparent, fun hdots => ?_⟩
    rw [← hdots] at hlen
    exact absurd hlen (by decide)
  · rw [hsegments, Path.join_cons_of_ne_nil _ (List.cons_ne_nil _ _), Path.join_singleton]
    simp

theorem spelledAsListed_routed {threadId : String} (h : isSafeSegment threadId.toList = true)
    (call : ChartCall) : SpelledAsListed (routed threadId call) := by
  have hlisted : listedAs (routed threadId call) = routed threadId call := by
    rw [listedAs, safeRelative_routed h call]
    rfl
  rw [SpelledAsListed, hlisted, ← String.toList_inj, rstripChar_toList,
    List.rdropWhile_eq_self_iff]
  intro hne hslash
  have hend : (routed threadId call).toList =
      ("/" ++ (threadId ++ "/" ++ (slugify call.label ++ ".plotly.jso"))).toList ++ ['n'] := by
    simp [routed]
  have hlast : (routed threadId call).toList.getLast hne = 'n' := by
    simp only [hend]
    exact List.getLast_append_singleton _
  rw [hlast] at hslash
  exact absurd hslash (by decide)

/-! ### Calls of one thread -/

section Calls

variable {b : ObjectBackend} {threadId : String} {store : Objects}

/-- The key of a chart. -/
def chartKey (b : ObjectBackend) (threadId : String) (call : ChartCall) : String :=
  b.base ++ "/" ++ (threadId ++ "/" ++ (slugify call.label ++ ".plotly.json"))

theorem key_routed (h : isSafeSegment threadId.toList = true) (call : ChartCall) :
    b.key (routed threadId call) = some (chartKey b threadId call) :=
  ObjectBackend.key_eq_some.mpr ⟨_, safeRelative_routed h call, rfl⟩

theorem append_right_cancel {s t u : String} (h : s ++ u = t ++ u) : s = t := by
  have hlist := congrArg String.toList h
  rw [String.toList_append, String.toList_append] at hlist
  exact String.toList_inj.mp (List.append_cancel_right hlist)

theorem chartKey_eq_iff {call call' : ChartCall} :
    chartKey b threadId call = chartKey b threadId call' ↔
      slugText call.label = slugText call'.label := by
  rw [← slugify_toList, ← slugify_toList, String.toList_inj, chartKey, chartKey]
  constructor
  · exact fun h => append_right_cancel
      (ObjectBackend.append_left_cancel (ObjectBackend.append_left_cancel h))
  · exact fun h => by rw [h]

theorem chartPath_eq_iff {call call' : ChartCall} :
    chartPath threadId call.specOf = chartPath threadId call'.specOf ↔
      slugText call.label = slugText call'.label := by
  rw [← slugify_toList, ← slugify_toList, String.toList_inj, chartPath_specOf, chartPath_specOf,
    routed, routed]
  constructor
  · exact fun h => append_right_cancel (ObjectBackend.append_left_cancel
      (ObjectBackend.append_left_cancel (ObjectBackend.append_left_cancel h)))
  · exact fun h => by rw [h]

/-- **What a call does**: the envelope, if there is one, becomes the object of its key. -/
theorem draw_eq (h : isSafeSegment threadId.toList = true) (store : Objects) (call : ChartCall) :
    draw b threadId store call =
      match call.prepared with
      | .error e => (.error (.prepare e), store)
      | .ok envelope =>
        (.ok (chartPath threadId call.specOf),
          store.set (chartKey b threadId call) envelope.toUTF8) := by
  rw [draw]
  cases call.prepared with
  | error e => rfl
  | ok envelope => simp only [chartsRoute_chartPath, ObjectBackend.write, key_routed h]

theorem draw_eq_ok (h : isSafeSegment threadId.toList = true) {call : ChartCall} {path : String} :
    (draw b threadId store call).1 = .ok path ↔
      call.Succeeds ∧ path = chartPath threadId call.specOf := by
  rw [draw_eq h, ChartCall.Succeeds]
  cases call.prepared with
  | error e => simp
  | ok envelope => simp [eq_comm]

theorem get?_draw_of_ne (h : isSafeSegment threadId.toList = true) {call : ChartCall} {k : String}
    (hk : call.Succeeds → k ≠ chartKey b threadId call) :
    (draw b threadId store call).2.get? k = store.get? k := by
  rw [draw_eq h]
  cases hp : call.prepared with
  | error e => rfl
  | ok envelope => exact Dict.get?_set_of_ne _ _ (hk ⟨envelope, hp⟩)

theorem get?_drawAll_of_ne (h : isSafeSegment threadId.toList = true) {calls : List ChartCall}
    {k : String} (hk : ∀ call ∈ calls, call.Succeeds → k ≠ chartKey b threadId call) :
    (drawAll b threadId store calls).get? k = store.get? k := by
  induction calls generalizing store with
  | nil => rfl
  | cons call calls ih =>
    obtain ⟨hcall, hcalls⟩ := List.forall_mem_cons.mp hk
    exact (ih hcalls).trans (get?_draw_of_ne h hcall)

theorem drawAll_append (calls calls' : List ChartCall) :
    drawAll b threadId store (calls ++ calls') =
      drawAll b threadId (drawAll b threadId store calls) calls' := List.foldl_append

end Calls

/-- In a run, a call that succeeds, and the path that it returns. -/
def Drew (b : ObjectBackend) (threadId : String) (start : Objects) (calls : List ChartCall)
    (i : ℕ) (call : ChartCall) (path : String) : Prop :=
  calls[i]? = some call ∧
    (draw b threadId (drawAll b threadId start (calls.take i)) call).1 = .ok path

/-- Without slugs, charts with different titles are stored under different paths, and each one is
kept until its title comes again; a slug that is passed replaces the charts that have it, and no
other object. -/
structure ChartsKept (b : ObjectBackend) (threadId : String) (start : Objects)
    (calls : List ChartCall) : Prop where
  apart : ∀ i j call call' path path', Drew b threadId start calls i call path →
    Drew b threadId start calls j call' path' → call.givenSlug = none → call'.givenSlug = none →
      call.title ≠ call'.title → path ≠ path'
  kept : (∀ call ∈ calls, call.givenSlug = none) →
    ∀ i call path envelope, Drew b threadId start calls i call path →
      call.prepared = .ok envelope →
      (∀ j call' path', i < j → Drew b threadId start calls j call' path' →
        call'.title ≠ call.title) →
      b.Kept (drawAll b threadId start calls) (chartsRoute path) envelope.toUTF8
  replaced : ∀ i j call call' path path' slug, i < j → Drew b threadId start calls i call path →
    Drew b threadId start calls j call' path' → call'.givenSlug = some slug →
      (path = path' ↔ call.CreatedWith slug)
  others : ∀ i call path k, Drew b threadId start calls i call path →
    b.key (chartsRoute path) ≠ some k →
      (drawAll b threadId start (calls.take (i + 1))).get? k =
        (drawAll b threadId start (calls.take i)).get? k

/-- No two calls that succeed have one slug, unless they are to replace each other: without slugs
by their title, with a slug that is passed by that slug.  (A call without slug after a chart with
one is not counted.) -/
def SlugsApart (calls : List ChartCall) : Prop :=
  ∀ (i j : ℕ) (call call' : ChartCall), i < j → calls[i]? = some call → calls[j]? = some call' →
    call.Succeeds → call'.Succeeds → slugText call.label = slugText call'.label →
      match call'.givenSlug with
      | none => call.givenSlug = none → call.title = call'.title
      | some slug => call.CreatedWith slug

section Runs

variable {b : ObjectBackend} {threadId : String} {start : Objects} {calls : List ChartCall}

theorem drew_iff (h : isSafeSegment threadId.toList = true) {i : ℕ} {call : ChartCall}
    {path : String} : Drew b threadId start calls i call path ↔
      calls[i]? = some call ∧ call.Succeeds ∧ path = chartPath threadId call.specOf := by
  rw [Drew, draw_eq_ok h]

/-- A chart is kept if no later one has its slug. -/
theorem get?_drawAll_of_later (h : isSafeSegment threadId.toList = true) {i : ℕ}
    {call : ChartCall} {envelope : String} (hi : calls[i]? = some call)
    (hp : call.prepared = .ok envelope)
    (hlater : ∀ j call', i < j → calls[j]? = some call' → call'.Succeeds →
      slugText call.label ≠ slugText call'.label) :
    (drawAll b threadId start calls).get? (chartKey b threadId call) = some envelope.toUTF8 := by
  obtain ⟨hlt, hget⟩ := List.getElem?_eq_some_iff.mp hi
  have hsplit : calls = calls.take i ++ call :: calls.drop (i + 1) := by
    rw [← hget, List.cons_getElem_drop_succ, List.take_append_drop]
  rw [hsplit, drawAll_append]
  have hothers : ∀ call' ∈ calls.drop (i + 1), call'.Succeeds →
      chartKey b threadId call ≠ chartKey b threadId call' := by
    intro call' hmem hsucceeds hkey
    obtain ⟨j, hj⟩ := List.mem_iff_getElem?.mp hmem
    rw [List.getElem?_drop] at hj
    exact hlater (i + 1 + j) call' (by omega) hj hsucceeds (chartKey_eq_iff.mp hkey)
  refine (get?_drawAll_of_ne h hothers).trans ?_
  dsimp only
  rw [draw_eq h, hp]
  exact Dict.get?_set_self _ _ _

theorem slugText_label_of_createdWith {call call' : ChartCall} {slug : String}
    (hgiven : call'.givenSlug = some slug) (h : call.CreatedWith slug) :
    slugText call.label = slugText call'.label := by
  have hlabel' : call'.label = slug := by rw [ChartCall.label, hgiven, Option.getD_some]
  rcases h with h | ⟨hnone, h⟩
  · rw [hlabel', ChartCall.label, h, Option.getD_some]
  · rw [hlabel', ChartCall.label, hnone, Option.getD_none, ← slugify_toList, ← slugify_toList, ← h,
      slugify_slugify]

theorem title_eq_of_slugsApart (hslugs : SlugsApart calls) {i j : ℕ} {call call' : ChartCall}
    (hij : i < j) (hi : calls[i]? = some call) (hj : calls[j]? = some call')
    (hsucceeds : call.Succeeds) (hsucceeds' : call'.Succeeds) (hnone : call.givenSlug = none)
    (hnone' : call'.givenSlug = none) (hslug : slugText call.label = slugText call'.label) :
    call.title = call'.title := by
  have hmatch := hslugs i j call call' hij hi hj hsucceeds hsucceeds' hslug
  rw [hnone'] at hmatch
  exact hmatch hnone

/-- **When charts do not overwrite one another** in a thread: exactly if no two calls that succeed
have titles or slugs with the same words, up to their first 60 characters, unless they are to
replace each other. -/
theorem chartsKept_iff (b : ObjectBackend) (current : Option String) (start : Objects)
    (calls : List ChartCall) :
    ChartsKept b (toolThreadId current) start calls ↔ SlugsApart calls := by
  have hsafe := isSafeSegment_toolThreadId current
  constructor
  · intro hkept i j call call' hij hi hj hsucceeds hsucceeds' hslug
    have hdrew : Drew b (toolThreadId current) start calls i call _ :=
      (drew_iff hsafe).mpr ⟨hi, hsucceeds, rfl⟩
    have hdrew' : Drew b (toolThreadId current) start calls j call' _ :=
      (drew_iff hsafe).mpr ⟨hj, hsucceeds', rfl⟩
    have hpath : chartPath (toolThreadId current) call.specOf =
        chartPath (toolThreadId current) call'.specOf := chartPath_eq_iff.mpr hslug
    split
    · next hnone' =>
      intro hnone
      by_contra htitle
      exact hkept.apart i j call call' _ _ hdrew hdrew' hnone hnone' htitle hpath
    · next slug hgiven =>
      exact (hkept.replaced i j call call' _ _ slug hij hdrew hdrew' hgiven).mp hpath
  · intro hslugs
    refine ⟨?_, ?_, ?_, ?_⟩
    · intro i j call call' path path' hdrew hdrew' hnone hnone' htitle hpath
      obtain ⟨hi, hsucceeds, rfl⟩ := (drew_iff hsafe).mp hdrew
      obtain ⟨hj, hsucceeds', rfl⟩ := (drew_iff hsafe).mp hdrew'
      have hslug := chartPath_eq_iff.mp hpath
      rcases Nat.lt_trichotomy i j with hij | rfl | hji
      · exact htitle (title_eq_of_slugsApart hslugs hij hi hj hsucceeds hsucceeds' hnone hnone' hslug)
      · exact htitle (by rw [Option.some.inj (hi.symm.trans hj)])
      · exact htitle (title_eq_of_slugsApart hslugs hji hj hi hsucceeds' hsucceeds hnone' hnone
          hslug.symm).symm
    · intro hnone i call path envelope hdrew hp hlater
      obtain ⟨hi, hsucceeds, rfl⟩ := (drew_iff hsafe).mp hdrew
      rw [chartsRoute_chartPath]
      refine ObjectBackend.kept_of_get? (spelledAsListed_routed hsafe call) (key_routed hsafe call)
        (get?_drawAll_of_later hsafe hi hp fun j call' hij hj hsucceeds' hslug => ?_)
      refine hlater j call' _ hij ((drew_iff hsafe).mpr ⟨hj, hsucceeds', rfl⟩) ?_
      exact (title_eq_of_slugsApart hslugs hij hi hj hsucceeds hsucceeds'
        (hnone call (List.mem_of_getElem? hi)) (hnone call' (List.mem_of_getElem? hj)) hslug).symm
    · intro i j call call' path path' slug hij hdrew hdrew' hgiven
      obtain ⟨hi, hsucceeds, rfl⟩ := (drew_iff hsafe).mp hdrew
      obtain ⟨hj, hsucceeds', rfl⟩ := (drew_iff hsafe).mp hdrew'
      rw [chartPath_eq_iff]
      constructor
      · intro hslug
        have hmatch := hslugs i j call call' hij hi hj hsucceeds hsucceeds' hslug
        rwa [hgiven] at hmatch
      · exact slugText_label_of_createdWith hgiven
    · intro i call path k hdrew hk
      obtain ⟨hi, hsucceeds, rfl⟩ := (drew_iff hsafe).mp hdrew
      rw [chartsRoute_chartPath, key_routed hsafe] at hk
      obtain ⟨hlt, hget⟩ := List.getElem?_eq_some_iff.mp hi
      rw [List.take_succ_eq_append_getElem hlt, hget, drawAll_append]
      exact get?_draw_of_ne hsafe fun _ heq => hk (by rw [heq])

end Runs

/-- The backend of the charts, for one user. -/
def chartsBackend : ObjectBackend :=
  { ObjectBackend.uploadBackend with
    area := "charts"
    registered := by decide }

/-- Two charts whose titles differ in a mark. -/
def markedTitles : List ChartCall :=
  [{ kind := .bar, title := "Runs by day", prepared := .ok "first" },
    { kind := .bar, title := "Runs by day!", prepared := .ok "second" }]

theorem not_chartsKept : ¬ ∀ b current start calls,
    ChartsKept b (toolThreadId current) start calls := by
  intro h
  have hkept := h chartsBackend none {} markedTitles
  have hsafe := isSafeSegment_toolThreadId none
  have hdrew : Drew chartsBackend (toolThreadId none) {} markedTitles 0 _ _ :=
    (drew_iff hsafe).mpr ⟨rfl, ⟨"first", rfl⟩, rfl⟩
  have hdrew' : Drew chartsBackend (toolThreadId none) {} markedTitles 1 _ _ :=
    (drew_iff hsafe).mpr ⟨rfl, ⟨"second", rfl⟩, rfl⟩
  refine hkept.apart 0 1 _ _ _ _ hdrew hdrew' rfl rfl (by decide) ?_
  decide +kernel

end NextRole
