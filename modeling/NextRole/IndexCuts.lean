import NextRole.Lib.Trimming
import NextRole.Runtime.Migrations
import NextRole.Runtime.SqlReading

/-!
# Where a migration is cut

The regular expression of `_split_sql_statements` finds every place where an index statement may
start, as no match of it has another match inside.  The parts between the matches make up the text,
and each part that is not blank is one statement to execute.

## Main definitions

* `sqlParts` — the parts of a text, each but the first with the match in front.
* `Scanned` — a list of parts that each start with a match, and have none inside.

## Main results

* `splitSqlStatements_eq` — the statements are what is left of the parts.
* `scanned_sqlParts` — **the parts are cut at the matches, and nowhere else**.
-/

namespace NextRole

open List

/-- The parts of a text, each but the first with the match in front. -/
def sqlParts (cs : List Char) : List (List Char) :=
  (splitIndexStatements (cs.length + 1) cs).1 ::
    (splitIndexStatements (cs.length + 1) cs).2.map fun part => part.1 ++ part.2

/-- `str.strip` on characters. -/
def trim (cs : List Char) : List Char := (cs.rdropWhile isSpace).dropWhile isSpace

/-- A part as a statement to execute. -/
def statementOf (part : List Char) : Option String :=
  if trim part = [] then none
  else some (String.ofList
    (if (trim part).getLast? = some ';' then trim part else trim part ++ [';']))

/-! ### White space at both ends -/

/-- A text that does not start with a blank. -/
def NoBlank (cs : List Char) : Prop := ∀ c ∈ cs.head?, isSpace c = false

theorem noBlank_dropWhile (cs : List Char) : NoBlank (cs.dropWhile isSpace) := by
  intro c hc
  have hnot := head?_dropWhile_not isSpace cs
  rw [Option.mem_def.mp hc] at hnot
  simpa using hnot

theorem NoBlank.dropWhile {cs : List Char} (h : NoBlank cs) : cs.dropWhile isSpace = cs := by
  cases cs with
  | nil => rfl
  | cons c cs => rw [dropWhile_cons_of_neg (by rw [h c rfl]; exact Bool.false_ne_true)]

theorem NoBlank.of_append {cs ds : List Char} (h : NoBlank (cs ++ ds)) : NoBlank cs := by
  cases cs with
  | nil => exact fun c hc => by cases hc
  | cons c cs => exact h

theorem NoBlank.trim {cs : List Char} (h : NoBlank cs) :
    NextRole.trim cs = cs.rdropWhile isSpace := by
  rw [NextRole.trim, dropWhile_rdropWhile_comm, h.dropWhile]

theorem exists_trim (cs : List Char) : ∃ before after : List Char,
    cs = before ++ (trim cs ++ after) ∧ (∀ c ∈ before, isSpace c = true) ∧
      ∀ c ∈ after, isSpace c = true := by
  refine ⟨(cs.rdropWhile isSpace).takeWhile isSpace, cs.rtakeWhile isSpace, ?_, ?_, ?_⟩
  · rw [← append_assoc, trim, takeWhile_append_dropWhile, rdropWhile_append_rtakeWhile]
  · exact fun c hc => mem_takeWhile_imp hc
  · exact fun c hc => mem_rtakeWhile_imp hc

theorem trim_eq_nil_iff {cs : List Char} : trim cs = [] ↔ ∀ c ∈ cs, isSpace c = true := by
  rw [trim, dropWhile_eq_nil_iff]
  constructor
  · intro h c hc
    rw [← @rdropWhile_append_rtakeWhile _ isSpace cs, mem_append] at hc
    rcases hc with hc | hc
    · exact h c hc
    · exact mem_rtakeWhile_imp hc
  · exact fun h c hc => h c (( rdropWhile_prefix isSpace cs).subset hc)

theorem trim_trim (cs : List Char) : trim (trim cs) = trim cs := by
  have hno : NoBlank (trim cs) := noBlank_dropWhile _
  rw [hno.trim, trim, dropWhile_rdropWhile_comm, rdropWhile_idempotent]

/-- A text in front of one that is not blank. -/
theorem trim_append {cs ds : List Char} (h : NoBlank ds) (hne : trim ds ≠ []) :
    trim (cs ++ ds) = cs.dropWhile isSpace ++ trim ds := by
  rw [h.trim] at hne ⊢
  rw [trim, rdropWhile_append_of_ne_nil hne, dropWhile_append]
  split
  · next hnil =>
    have hblank : NoBlank (ds.rdropWhile isSpace) := by
      obtain ⟨rest, hrest⟩ := rdropWhile_prefix isSpace ds
      rw [← hrest] at h
      exact h.of_append
    rw [hblank.dropWhile, isEmpty_iff.mp hnil, nil_append]
  · rfl

/-! ### Matches -/

/-- No character but the first one of a match can be the first one of another: none is a `c` or a
`d` that is followed by an `r`. -/
def calm : List Char → Bool
  | [] => true
  | [a] => a ≠ 'c' && a ≠ 'd'
  | a :: b :: l => (b ≠ 'r' || (a ≠ 'c' && a ≠ 'd')) && calm (b :: l)

theorem calm_append {l l' : List Char} (h : calm l = true) (h' : calm l' = true) :
    calm (l ++ l') = true := by
  induction l using calm.induct with
  | case1 => exact h'
  | case2 a =>
    rw [calm] at h
    cases l' with
    | nil => exact h
    | cons b l' => rw [singleton_append, calm, h, h', Bool.or_true, Bool.and_true]
  | case3 a b l ih =>
    rw [calm, Bool.and_eq_true] at h
    rw [cons_append, cons_append, calm, Bool.and_eq_true]
    exact ⟨h.1, ih h.2⟩

theorem calm_cons {a : Char} {l : List Char} (ha : a ≠ 'c' ∧ a ≠ 'd') (h : calm l = true) :
    calm (a :: l) = true := by
  cases l with
  | nil => simp [calm, ha]
  | cons b l => simp [calm, ha, h]

theorem calm_of_cons {a : Char} {l : List Char} (h : calm (a :: l) = true) : calm l = true := by
  cases l with
  | nil => rfl
  | cons b l =>
    rw [calm, Bool.and_eq_true] at h
    exact h.2

/-- What is no letter is folded to itself, or to an `i` or an `s`. -/
theorem foldCase_of_not_isAlpha {c : Char} (h : c.isAlpha = false) :
    foldCase c = c ∨ foldCase c = 'i' ∨ foldCase c = 's' := by
  have hlower : c.toLower = c := by
    rw [Char.toLower, dif_neg]
    intro hupper
    have halpha : c.isAlpha = true := by
      rw [Char.isAlpha, Char.isUpper, decide_eq_true hupper, Bool.true_or]
    rw [halpha] at h
    cases h
  rw [foldCase]
  split
  · exact .inr (.inl rfl)
  · split
    · exact .inr (.inr rfl)
    · exact .inl hlower

theorem isAlpha_of_foldCase {c : Char} (h : (foldCase c).isAlpha = true) (hi : foldCase c ≠ 'i')
    (hs : foldCase c ≠ 's') : c.isAlpha = true := by
  by_contra hnot
  rcases foldCase_of_not_isAlpha (Bool.eq_false_iff.mpr hnot) with heq | heq | heq
  · rw [heq] at h
    exact hnot h
  · exact hi heq
  · exact hs heq

theorem foldCase_of_isSpace {c : Char} (h : isSpace c = true) :
    foldCase c ≠ 'c' ∧ foldCase c ≠ 'd' := by
  have halpha : c.isAlpha = false := by
    by_contra hnot
    rw [Bool.not_eq_false] at hnot
    have halnum := toNat_of_isAlphanum (c := c) (by rw [Char.isAlphanum, hnot, Bool.true_or])
    have hblank := toNat_of_isSpace h
    omega
  rcases foldCase_of_not_isAlpha halpha with heq | heq | heq
  · rw [heq]
    exact ⟨ne_of_isSpace h (by decide), ne_of_isSpace h (by decide)⟩
  · rw [heq]
    decide
  · rw [heq]
    decide

theorem calm_map_of_isSpace {l : List Char} (h : ∀ c ∈ l, isSpace c = true) :
    calm (l.map foldCase) = true := by
  induction l with
  | nil => rfl
  | cons a l ih =>
    rw [forall_mem_cons] at h
    rw [map_cons]
    exact calm_cons (foldCase_of_isSpace h.1) (ih h.2)

theorem matchWord_spec {word s rest : List Char} (h : matchWord word s = some rest) :
    ∃ m, s = m ++ rest ∧ m.map foldCase = word := by
  induction word generalizing s with
  | nil =>
    cases h
    exact ⟨[], rfl, rfl⟩
  | cons w word ih =>
    cases s with
    | nil => cases h
    | cons c s =>
      rw [matchWord] at h
      split at h
      · next hc =>
        obtain ⟨m, rfl, rfl⟩ := ih h
        exact ⟨c :: m, rfl, by rw [map_cons, hc]⟩
      · cases h

theorem matchSpaces_spec {s rest : List Char} (h : matchSpaces s = some rest) :
    ∃ c m, s = c :: (m ++ rest) ∧ isSpace c = true ∧ (∀ d ∈ m, isSpace d = true) := by
  cases s with
  | nil => cases h
  | cons c s =>
    rw [matchSpaces] at h
    split at h
    · next hc =>
      cases h
      exact ⟨c, s.takeWhile isSpace, by rw [takeWhile_append_dropWhile], hc,
        fun d hd => mem_takeWhile_imp hd⟩
    · cases h

/-- A text that is consumed: what is left is a rest of it, and the folded text between is calm. -/
def Consumes (s rest : List Char) : Prop := ∃ m, s = m ++ rest ∧ calm (m.map foldCase) = true

theorem Consumes.trans {s t u : List Char} (h : Consumes s t) (h' : Consumes t u) :
    Consumes s u := by
  obtain ⟨m, rfl, hm⟩ := h
  obtain ⟨n, rfl, hn⟩ := h'
  exact ⟨m ++ n, (append_assoc _ _ _).symm, by rw [map_append]; exact calm_append hm hn⟩

theorem consumes_self (s : List Char) : Consumes s s := ⟨[], rfl, rfl⟩

theorem consumes_matchWord {word s rest : List Char} (h : matchWord word s = some rest)
    (hcalm : calm word = true) : Consumes s rest := by
  obtain ⟨m, rfl, rfl⟩ := matchWord_spec h
  exact ⟨m, rfl, hcalm⟩

theorem consumes_matchSpaces {s rest : List Char} (h : matchSpaces s = some rest) :
    Consumes s rest := by
  obtain ⟨c, m, rfl, hc, hm⟩ := matchSpaces_spec h
  refine ⟨c :: m, rfl, calm_map_of_isSpace ?_⟩
  rw [forall_mem_cons]
  exact ⟨hc, hm⟩

theorem consumes_dropWhile (s : List Char) : Consumes s (s.dropWhile isSpace) :=
  ⟨s.takeWhile isSpace, takeWhile_append_dropWhile.symm,
    calm_map_of_isSpace fun _ hc => mem_takeWhile_imp hc⟩

theorem consumes_getD {s : List Char} {o : Option (List Char)}
    (h : ∀ t, o = some t → Consumes s t) : Consumes s (o.getD s) := by
  cases o with
  | none => exact consumes_self s
  | some t => exact h t rfl

/-- The words that a match can start with. -/
def Opening (word : List Char) : Prop := word = "create".toList ∨ word = "drop".toList

theorem Opening.spec {word : List Char} (h : Opening word) :
    (∃ a l, word = a :: 'r' :: l ∧ (a = 'c' ∨ a = 'd') ∧ calm ('r' :: l) = true) ∧
      ∀ c ∈ word, c.isAlpha = true ∧ c ≠ 'i' ∧ c ≠ 's' := by
  rcases h with rfl | rfl
  · exact ⟨⟨'c', "eate".toList, by decide, .inl rfl, by decide⟩, by simp⟩
  · exact ⟨⟨'d', "op".toList, by decide, .inr rfl, by decide⟩, by simp⟩

/-- **What a match is**: one of two words, a blank, and what has no match inside. -/
theorem matchIndexStatement_spec {s rest : List Char} (h : matchIndexStatement s = some rest) :
    NoBlank rest ∧ ∃ word c tail, s = word ++ c :: tail ∧ Opening (word.map foldCase) ∧
      isSpace c = true ∧ Consumes tail rest := by
  rw [matchIndexStatement] at h
  simp only [Option.or_eq_some_iff, Option.bind_eq_bind, Option.bind_eq_some_iff, Option.pure_def,
    Option.some.injEq] at h
  rcases h with h | ⟨-, h⟩
  · obtain ⟨s₁, h₁, s₂, h₂, s₃, h₃, s₄, h₄, s₅, h₅, rfl⟩ := h
    obtain ⟨word, rfl, hword⟩ := matchWord_spec h₁
    obtain ⟨c, m, rfl, hc, hm⟩ := matchSpaces_spec h₂
    refine ⟨noBlank_dropWhile s₅, word, c, m ++ s₂, rfl, (.inl hword), hc, ?_⟩
    have hblank : Consumes (m ++ s₂) s₂ := ⟨m, rfl, calm_map_of_isSpace hm⟩
    exact hblank.trans ((consumes_matchWord h₃ (by decide)).trans ((consumes_matchSpaces h₄).trans
      ((consumes_matchWord h₅ (by decide)).trans (consumes_dropWhile s₅))))
  · obtain ⟨s₁, h₁, s₂, h₂, s₃, h₃, s₄, h₄, rfl⟩ := h
    obtain ⟨word, rfl, hword⟩ := matchWord_spec h₁
    obtain ⟨c, m, rfl, hc, hm⟩ := matchSpaces_spec h₂
    refine ⟨noBlank_dropWhile _, word, c, m ++ s₂, rfl, (.inr hword), hc, ?_⟩
    have hblank : Consumes (m ++ s₂) s₂ := ⟨m, rfl, calm_map_of_isSpace hm⟩
    refine hblank.trans ((consumes_matchWord h₃ (by decide)).trans
      ((consumes_matchSpaces h₄).trans ?_))
    refine (consumes_getD fun t ht => ?_).trans
      ((consumes_getD fun t ht => ?_).trans (consumes_dropWhile _))
    · obtain ⟨u, hu, ht⟩ := Option.bind_eq_some_iff.mp ht
      exact (consumes_matchWord hu (by decide)).trans (consumes_matchSpaces ht)
    · simp only [Option.bind_eq_some_iff] at ht
      obtain ⟨u₁, hu₁, u₂, hu₂, u₃, hu₃, hu₄⟩ := ht
      exact (consumes_matchWord hu₁ (by decide)).trans ((consumes_matchSpaces hu₂).trans
        ((consumes_matchWord hu₃ (by decide)).trans (consumes_matchSpaces hu₄)))

theorem exists_of_match {s : List Char} (h : (matchIndexStatement s).isSome = true) :
    ∃ a b t, s = a :: b :: t ∧ (foldCase a = 'c' ∨ foldCase a = 'd') ∧ foldCase b = 'r' := by
  obtain ⟨rest, hrest⟩ := Option.isSome_iff_exists.mp h
  obtain ⟨-, word, c, tail, rfl, hword, -, -⟩ := matchIndexStatement_spec hrest
  obtain ⟨⟨x, l, hl, hx, -⟩, -⟩ := hword.spec
  obtain ⟨a, w, rfl, ha, hw⟩ := map_eq_cons_iff.mp hl
  obtain ⟨b, w, rfl, hb, -⟩ := map_eq_cons_iff.mp hw
  exact ⟨a, b, w ++ c :: tail, rfl, ha ▸ hx, hb⟩

/-- In a calm text there is no match. -/
theorem not_match_of_calm {v : List Char} (hv : v ≠ []) (h : calm (v.map foldCase) = true)
    (rest : List Char) : (matchIndexStatement (v ++ rest)).isSome = false := by
  by_contra hnot
  rw [Bool.not_eq_false] at hnot
  obtain ⟨a, b, t, heq, ha, hb⟩ := exists_of_match hnot
  have hfirst : foldCase a ≠ 'c' ∧ foldCase a ≠ 'd' := by
    match v, hv with
    | [c], _ =>
      obtain ⟨rfl, -⟩ := cons.inj heq
      simpa [calm] using h
    | c :: d :: v, _ =>
      obtain ⟨rfl, htail⟩ := cons.inj heq
      obtain ⟨rfl, -⟩ := cons.inj htail
      rw [map_cons, map_cons, calm, Bool.and_eq_true] at h
      simpa [hb] using h.1
  exact ha.elim hfirst.1 hfirst.2

theorem calm_of_append {u v : List Char} (h : calm (u ++ v) = true) : calm v = true := by
  induction u with
  | nil => exact h
  | cons a u ih => exact ih (calm_of_cons h)

/-- A part that starts with a word of letters and a blank. -/
def StartsWithWord (part : List Char) : Prop :=
  ∃ word c tail, part = word ++ c :: tail ∧ word ≠ [] ∧ (∀ d ∈ word, d.isAlpha = true) ∧
    isSpace c = true

/-- **A match has no other match inside.** -/
theorem matchIndexStatement_inside {s rest : List Char} (h : matchIndexStatement s = some rest) :
    ∃ a m, s = a :: (m ++ rest) ∧ StartsWithWord (a :: m) ∧
      ∀ u v, m = u ++ v → v ≠ [] → (matchIndexStatement (v ++ rest)).isSome = false := by
  obtain ⟨-, word, c, tail, rfl, hword, hc, n, rfl, hn⟩ := matchIndexStatement_spec h
  obtain ⟨⟨x, l, hl, -, hcalm⟩, hletters⟩ := hword.spec
  obtain ⟨a, w, rfl, rfl, hw⟩ := map_eq_cons_iff.mp hl
  refine ⟨a, w ++ c :: n, by simp, ⟨a :: w, c, n, rfl, cons_ne_nil a w, ?_, hc⟩, ?_⟩
  · intro d hd
    obtain ⟨halpha, hi, hs⟩ := hletters (foldCase d) (mem_map_of_mem hd)
    exact isAlpha_of_foldCase halpha hi hs
  · intro u v heq hv
    apply not_match_of_calm hv
    have hall : calm ((w ++ c :: n).map foldCase) = true := by
      rw [map_append, map_cons, hw]
      exact calm_append hcalm (calm_cons (foldCase_of_isSpace hc) hn)
    rw [heq, map_append] at hall
    exact calm_of_append hall

theorem StartsWithWord.append {part : List Char} (h : StartsWithWord part) (rest : List Char) :
    StartsWithWord (part ++ rest) := by
  obtain ⟨word, c, tail, rfl, hword⟩ := h
  exact ⟨word, c, tail ++ rest, by rw [append_assoc, cons_append], hword⟩

theorem not_isSpace_of_isAlpha {c : Char} (h : c.isAlpha = true) : isSpace c = false := by
  by_contra hnot
  rw [Bool.not_eq_false] at hnot
  have halnum := toNat_of_isAlphanum (c := c) (by rw [Char.isAlphanum, h, Bool.true_or])
  have hblank := toNat_of_isSpace hnot
  omega

theorem StartsWithWord.noBlank {part : List Char} (h : StartsWithWord part) : NoBlank part := by
  obtain ⟨word, c, tail, rfl, hne, hword, -⟩ := h
  cases word with
  | nil => exact absurd rfl hne
  | cons d word =>
    intro e he
    cases he
    exact not_isSpace_of_isAlpha (hword d mem_cons_self)

theorem StartsWithWord.ne_nil {part : List Char} (h : StartsWithWord part) : part ≠ [] := by
  obtain ⟨word, c, tail, rfl, -⟩ := h
  exact append_ne_nil_of_right_ne_nil word (cons_ne_nil c tail)

theorem StartsWithWord.trim_ne_nil {part : List Char} (h : StartsWithWord part) :
    trim part ≠ [] := by
  intro hnil
  rw [trim_eq_nil_iff] at hnil
  cases hpart : part with
  | nil => exact h.ne_nil hpart
  | cons a rest =>
    have hblank := hnil a (hpart ▸ mem_cons_self)
    have hno := h.noBlank a (by rw [hpart]; rfl)
    rw [hno] at hblank
    cases hblank

/-! ### The parts -/

/-- No match starts in a part, up to the text behind it. -/
def NoMatch (part rest : List Char) : Prop :=
  ∀ u v, part = u ++ v → v ≠ [] → (matchIndexStatement (v ++ rest)).isSome = false

/-- Parts that each start with a match, and have no other one. -/
def Scanned : List (List Char) → Prop
  | [] => True
  | part :: parts => StartsWithWord part ∧ NoMatch part.tail parts.flatten ∧
      (matchIndexStatement (part ++ parts.flatten)).isSome = true ∧ Scanned parts

/-- **The parts are cut at the matches, and nowhere else.** -/
theorem splitIndexStatements_spec {fuel : ℕ} {cs : List Char} (h : cs.length < fuel) :
    (splitIndexStatements fuel cs).1 ++
        ((splitIndexStatements fuel cs).2.map fun part => part.1 ++ part.2).flatten = cs ∧
      NoMatch (splitIndexStatements fuel cs).1
        ((splitIndexStatements fuel cs).2.map fun part => part.1 ++ part.2).flatten ∧
      Scanned ((splitIndexStatements fuel cs).2.map fun part => part.1 ++ part.2) ∧
      ∀ part ∈ (splitIndexStatements fuel cs).2, NoBlank part.2 := by
  induction fuel generalizing cs with
  | zero => omega
  | succ fuel ih =>
    cases cs with
    | nil =>
      refine ⟨rfl, fun u v heq hv => ?_, trivial, fun part hpart => by cases hpart⟩
      exact absurd (append_eq_nil_iff.mp heq.symm).2 hv
    | cons c cs =>
      rw [splitIndexStatements]
      split
      · next rest hmatch =>
        obtain ⟨a, m, heq, ha, hinside⟩ := matchIndexStatement_inside hmatch
        have hblank := (matchIndexStatement_spec hmatch).1
        have hlength : rest.length < fuel := by
          have hlength := congrArg length heq
          simp only [length_cons, length_append] at hlength h
          omega
        obtain ⟨hflatten, hfirst, hscanned, hno⟩ := ih hlength
        have htake : (c :: cs).take ((c :: cs).length - rest.length) = a :: m := by
          rw [heq, ← cons_append, length_append, Nat.add_sub_cancel, take_left]
        have htext : (a :: m) ++ rest = c :: cs := heq.symm
        rw [htake]
        dsimp only
        rw [map_cons, flatten_cons, nil_append, append_assoc, hflatten]
        refine ⟨htext, fun u v hnil hv => absurd (append_eq_nil_iff.mp hnil.symm).2 hv, ?_, ?_⟩
        · refine ⟨ha.append _, fun u v huv hv => ?_, ?_, hscanned⟩
          · rcases append_eq_append_iff.mp huv with ⟨u', rfl, hseg⟩ | ⟨v', hm, rfl⟩
            · exact hfirst u' v hseg hv
            · cases v' with
              | nil => exact hfirst [] _ rfl hv
              | cons b v' =>
                rw [append_assoc, hflatten]
                exact hinside u (b :: v') hm (cons_ne_nil b v')
          · rw [append_assoc, hflatten, htext, hmatch]
            rfl
        · rw [forall_mem_cons]
          refine ⟨?_, hno⟩
          rw [← hflatten] at hblank
          exact hblank.of_append
      · next hnone =>
        have hlength : cs.length < fuel := Nat.lt_of_succ_lt_succ h
        obtain ⟨hflatten, hfirst, hscanned, hno⟩ := ih hlength
        dsimp only
        refine ⟨by rw [cons_append, hflatten], fun u v huv hv => ?_, hscanned, hno⟩
        cases u with
        | nil =>
          rw [← show _ = v from huv, cons_append, hflatten, hnone]
          rfl
        | cons d u =>
          obtain ⟨-, huv⟩ := cons.inj huv
          exact hfirst u v huv hv

theorem flatten_sqlParts (cs : List Char) : (sqlParts cs).flatten = cs :=
  (splitIndexStatements_spec (Nat.lt_succ_self cs.length)).1

theorem scanned_sqlParts (cs : List Char) : ∃ part parts, sqlParts cs = part :: parts ∧
    NoMatch part parts.flatten ∧ Scanned parts := by
  have hspec := splitIndexStatements_spec (Nat.lt_succ_self cs.length)
  exact ⟨_, _, rfl, hspec.2.1, hspec.2.2.1⟩

theorem Scanned.of_append {as bs : List (List Char)} (h : Scanned (as ++ bs)) : Scanned bs := by
  induction as with
  | nil => exact h
  | cons a as ih => exact ih h.2.2.2

theorem Scanned.startsWithWord {parts : List (List Char)} (h : Scanned parts) :
    ∀ part ∈ parts, StartsWithWord part := by
  intro part hpart
  obtain ⟨as, bs, rfl⟩ := append_of_mem hpart
  exact h.of_append.1

/-- **Every match is cut.** -/
theorem exists_cut {cs pre suf : List Char} (hcs : cs = pre ++ suf)
    (h : (matchIndexStatement suf).isSome = true) : ∃ as bs, sqlParts cs = as ++ bs ∧ as ≠ [] ∧
      bs ≠ [] ∧ pre = as.flatten ∧ suf = bs.flatten := by
  have hsuf : suf ≠ [] := by
    rintro rfl
    cases h
  obtain ⟨part, parts, hparts, hfirst, hscanned⟩ := scanned_sqlParts cs
  have hflatten := flatten_sqlParts cs
  rw [hparts, hcs, flatten_eq_append_iff] at hflatten
  rw [hparts]
  rcases hflatten with ⟨as, bs, heq, rfl, rfl⟩ | ⟨as, u, c, v, ds, heq, rfl, rfl⟩
  · have hbs : bs ≠ [] := by
      rintro rfl
      exact hsuf rfl
    cases as with
    | cons a as => exact ⟨a :: as, bs, heq, cons_ne_nil a as, hbs, rfl, rfl⟩
    | nil =>
      -- the text starts with a match: the first part is empty
      cases heq
      have hempty : part = [] := by
        by_contra hne
        rw [flatten_cons, hfirst [] part rfl hne] at h
        cases h
      subst hempty
      refine ⟨[[]], parts, rfl, cons_ne_nil _ _, ?_, rfl, rfl⟩
      rintro rfl
      exact hsuf rfl
  · cases as with
    | nil =>
      obtain ⟨rfl, rfl⟩ := cons.inj heq
      rw [hfirst u (c :: v) rfl (cons_ne_nil c v)] at h
      cases h
    | cons a as =>
      obtain ⟨rfl, rfl⟩ := cons.inj heq
      obtain ⟨-, hno, -⟩ := hscanned.of_append
      cases u with
      | nil =>
        exact ⟨part :: as, (c :: v) :: ds, rfl, cons_ne_nil _ _, cons_ne_nil _ _,
          append_nil _, rfl⟩
      | cons d u =>
        rw [hno u (c :: v) rfl (cons_ne_nil c v)] at h
        cases h

theorem match_of_cut {cs : List Char} {as bs : List (List Char)} {part : List Char}
    (h : sqlParts cs = as ++ part :: bs) (has : as ≠ []) :
    (matchIndexStatement (part ++ bs.flatten)).isSome = true := by
  obtain ⟨first, parts, hparts, -, hscanned⟩ := scanned_sqlParts cs
  rw [hparts] at h
  cases as with
  | nil => exact absurd rfl has
  | cons a as =>
    obtain ⟨rfl, rfl⟩ := cons.inj h
    exact hscanned.of_append.2.2.1

/-- **Nothing else is cut**: there is no match inside of a part. -/
theorem not_match_of_inside {cs u v : List Char} {as bs : List (List Char)}
    (h : sqlParts cs = as ++ (u ++ v) :: bs) (hu : u ≠ []) (hv : v ≠ []) :
    (matchIndexStatement (v ++ bs.flatten)).isSome = false := by
  obtain ⟨first, parts, hparts, hfirst, hscanned⟩ := scanned_sqlParts cs
  rw [hparts] at h
  cases as with
  | nil =>
    obtain ⟨rfl, rfl⟩ := cons.inj h
    exact hfirst u v rfl hv
  | cons a as =>
    obtain ⟨rfl, rfl⟩ := cons.inj h
    obtain ⟨c, u, rfl⟩ := exists_cons_of_ne_nil hu
    exact hscanned.of_append.2.1 u v rfl hv

theorem trim_append_trim {m seg : List Char} (h : m = [] ∨ NoBlank seg) :
    trim (m ++ trim seg) = trim (m ++ seg) := by
  rcases h with rfl | h
  · exact trim_trim seg
  · rw [h.trim]
    by_cases hnil : seg.rdropWhile isSpace = []
    · have hseg : seg = [] := by
        rw [← h.dropWhile, dropWhile_eq_nil_iff]
        exact rdropWhile_eq_nil_iff.mp hnil
      rw [hseg]
      rfl
    · have hidem : (seg.rdropWhile isSpace).rdropWhile isSpace = seg.rdropWhile isSpace :=
        rdropWhile_idempotent isSpace seg
      rw [trim, trim, rdropWhile_append_of_ne_nil hnil, rdropWhile_append_of_ne_nil
        (by rw [hidem]; exact hnil), hidem]

/-- What is executed of a match and the text behind it. -/
theorem statementOf_append {m seg : List Char} (h : m = [] ∨ NoBlank seg) :
    (let stmt := strip (String.ofList m ++ strip (String.ofList seg))
    if stmt = "" then none
    else some (if stmt.toList.getLast? = some ';' then stmt else stmt ++ ";")) =
      statementOf (m ++ seg) := by
  have hstrip : strip (String.ofList m ++ strip (String.ofList seg)) =
      String.ofList (trim (m ++ seg)) := by
    rw [← trim_append_trim h]
    simp [strip, trim]
  rw [hstrip, statementOf]
  have hempty : String.ofList (trim (m ++ seg)) = "" ↔ trim (m ++ seg) = [] := by
    rw [← String.toList_inj, String.toList_ofList]
    exact Iff.rfl
  simp only [hempty, String.toList_ofList]
  split
  · rfl
  · split
    · rfl
    · rw [String.ofList_append]

/-- The statements are what is left of the parts. -/
theorem splitSqlStatements_eq (sql : String) :
    splitSqlStatements sql = (sqlParts sql.toList).filterMap statementOf := by
  have hspec := splitIndexStatements_spec (Nat.lt_succ_self sql.toList.length)
  have hparts : ∀ part ∈ ([], (splitIndexStatements (sql.toList.length + 1) sql.toList).1) ::
      (splitIndexStatements (sql.toList.length + 1) sql.toList).2,
      part.1 = [] ∨ NoBlank part.2 := by
    rw [forall_mem_cons]
    exact ⟨.inl rfl, fun part hpart => .inr (hspec.2.2.2 part hpart)⟩
  have hmap : sqlParts sql.toList =
      (([], (splitIndexStatements (sql.toList.length + 1) sql.toList).1) ::
        (splitIndexStatements (sql.toList.length + 1) sql.toList).2).map
          fun part => part.1 ++ part.2 := rfl
  rw [hmap, filterMap_map]
  exact filterMap_congr fun part hpart => statementOf_append (hparts part hpart)

end NextRole
