import Mathlib
import NextRole.Lib.JsonText

/-!
# Words of a text that are replaced

`text.replace(/\bword\b/g, other)`: where the characters between two word boundaries are the word,
others take its place.  The scan goes through the text once, with whether the previous character was
one of a word.

## Main definitions

* `replaceWord` — the text with another word.
* `Replaces` — a word and what takes its place, which may stand between quotes.

## Main results

* `replaceWord_append_cons` — a text is replaced on both sides of what is no character of a word.
* `replaceWord_of_notMem` — a text without the first character of the word stays.
* `exists_body_replaceWord` — **what was read between quotes is read still**: as before, or with the
  other word in it.
-/

/-- The characters that `\w` takes. -/
def isAsciiWord (c : Char) : Bool := c.isAlphanum || c = '_'

/-- The text with `other` in the place of each `word`; so many characters of the last one are to be
skipped. -/
def replaceWord (word other : List Char) : Bool → ℕ → List Char → List Char
  | _, _, [] => []
  | _, skip + 1, c :: cs => replaceWord word other (isAsciiWord c) skip cs
  | afterWord, 0, c :: cs =>
    if !afterWord && (c :: cs).takeWhile isAsciiWord = word then
      other ++ replaceWord word other (isAsciiWord c) (word.length - 1) cs
    else c :: replaceWord word other (isAsciiWord c) 0 cs

variable {word other x y : List Char} {c : Char} {afterWord : Bool}

@[simp] theorem replaceWord_nil (skip : ℕ) : replaceWord word other afterWord skip [] = [] := by
  cases skip <;> rfl

theorem replaceWord_of_ne (h : afterWord = true ∨ (c :: x).takeWhile isAsciiWord ≠ word) :
    replaceWord word other afterWord 0 (c :: x) =
      c :: replaceWord word other (isAsciiWord c) 0 x := by
  rw [replaceWord]
  refine if_neg fun hmatch => ?_
  rw [Bool.and_eq_true, Bool.not_eq_true', decide_eq_true_eq] at hmatch
  rcases h with h | h
  · rw [h] at hmatch
    cases hmatch.1
  · exact h hmatch.2

theorem takeWhile_append_cons (hc : isAsciiWord c = false) (x y : List Char) :
    (x ++ c :: y).takeWhile isAsciiWord = x.takeWhile isAsciiWord := by
  induction x with
  | nil => exact List.takeWhile_cons_of_neg (by simp [hc])
  | cons a x ih =>
    rw [List.cons_append, List.takeWhile_cons, List.takeWhile_cons, ih]

/-- A text is replaced on both sides of what is no character of a word. -/
theorem replaceWord_append_cons (hword : word ≠ []) (hc : isAsciiWord c = false)
    (afterWord : Bool) {skip : ℕ} (x y : List Char)
    (hskip : skip ≤ (x.takeWhile isAsciiWord).length) :
    replaceWord word other afterWord skip (x ++ c :: y) =
      replaceWord word other afterWord skip x ++ c :: replaceWord word other false 0 y := by
  induction x generalizing afterWord skip with
  | nil =>
    obtain rfl : skip = 0 := Nat.le_zero.mp hskip
    have hne : (c :: y).takeWhile isAsciiWord ≠ word := by
      rw [List.takeWhile_cons_of_neg (by simp [hc])]
      exact hword.symm
    rw [List.nil_append, replaceWord_of_ne (.inr hne), hc, replaceWord_nil, List.nil_append]
  | cons a x ih =>
    rw [List.cons_append]
    cases skip with
    | succ skip =>
      -- what is skipped is of a word
      rw [replaceWord, replaceWord]
      apply ih
      rw [List.takeWhile_cons] at hskip
      split at hskip
      · exact Nat.le_of_succ_le_succ hskip
      · exact absurd hskip (Nat.not_succ_le_zero skip)
    | zero =>
      have htake : (a :: (x ++ c :: y)).takeWhile isAsciiWord = (a :: x).takeWhile isAsciiWord :=
        takeWhile_append_cons hc (a :: x) y
      rw [replaceWord, replaceWord, htake]
      split
      · next hmatch =>
        rw [Bool.and_eq_true, decide_eq_true_eq] at hmatch
        rw [ih, List.append_assoc]
        rw [← hmatch.2, List.takeWhile_cons]
        split
        · simp
        · simp
      · rw [ih _ (Nat.zero_le _), List.cons_append]

/-- A text without the first character of the word stays. -/
theorem replaceWord_of_notMem {first : Char} (hword : word.head? = some first) (hx : first ∉ x)
    (afterWord : Bool) : replaceWord word other afterWord 0 x = x := by
  induction x generalizing afterWord with
  | nil => exact replaceWord_nil 0
  | cons a x ih =>
    rw [List.mem_cons, not_or] at hx
    have hne : (a :: x).takeWhile isAsciiWord ≠ word := by
      rintro rfl
      rw [List.takeWhile_cons] at hword
      split at hword
      · exact hx.1 (Option.some.inj hword).symm
      · cases hword
    rw [replaceWord_of_ne (.inr hne), ih hx.2]

theorem replaceWord_skip (h : ∀ a ∈ x, isAsciiWord a = true) (hx : x ≠ [] ∨ afterWord = true)
    (y : List Char) : replaceWord word other afterWord x.length (x ++ y) =
      replaceWord word other true 0 y := by
  induction x generalizing afterWord with
  | nil =>
    rw [hx.resolve_left (· rfl)]
    rfl
  | cons a x ih =>
    rw [List.forall_mem_cons] at h
    rw [List.cons_append, List.length_cons, replaceWord, h.1]
    exact ih h.2 (.inr rfl)

/-- The word between boundaries gives the other one. -/
theorem replaceWord_match (hword : word ≠ []) (hx : x.takeWhile isAsciiWord = word) :
    replaceWord word other false 0 x =
      other ++ replaceWord word other true 0 (x.dropWhile isAsciiWord) := by
  cases x with
  | nil => exact absurd hx.symm hword
  | cons a x =>
    have ha : isAsciiWord a = true := by
      by_contra hnot
      rw [List.takeWhile_cons_of_neg hnot] at hx
      exact hword hx.symm
    have htake : word = a :: x.takeWhile isAsciiWord := by
      rw [← hx, List.takeWhile_cons_of_pos ha]
    have hlength : word.length - 1 = (x.takeWhile isAsciiWord).length := by
      rw [htake, List.length_cons, Nat.add_sub_cancel]
    have hall : ∀ b ∈ x.takeWhile isAsciiWord, isAsciiWord b = true :=
      fun b hb => List.mem_takeWhile_imp hb
    have hcond : (!false && decide ((a :: x).takeWhile isAsciiWord = word)) = true := by
      rw [hx]
      simp
    rw [replaceWord, if_pos hcond, ha, hlength, List.dropWhile_cons_of_pos ha]
    refine congrArg (other ++ ·) ?_
    calc replaceWord word other true (x.takeWhile isAsciiWord).length x
        = replaceWord word other true (x.takeWhile isAsciiWord).length
            (x.takeWhile isAsciiWord ++ x.dropWhile isAsciiWord) := by
          rw [List.takeWhile_append_dropWhile]
      _ = replaceWord word other true 0 (x.dropWhile isAsciiWord) :=
          replaceWord_skip hall (.inr rfl) _

/-! ### Between quotes -/

namespace Json

/-- A word whose characters stand for themselves between quotes, and so do those of the other one;
no letter that may follow a backslash begins it. -/
structure Replaces (word other : List Char) : Prop where
  ne_nil : word ≠ []
  plain : ∀ c ∈ word, isPlain c = true
  other : ∀ c ∈ other, isPlain c = true
  head : ∀ c ∈ word.head?, simpleEscape c = none ∧ c ≠ 'u'

theorem Body.of_plain_append {cs : List Char} (h : ∀ c ∈ x, isPlain c = true)
    (hbody : Body (x ++ y) cs) : ∃ ds, cs = x ++ ds ∧ Body y ds := by
  induction x generalizing cs with
  | nil => exact ⟨cs, rfl, hbody⟩
  | cons a x ih =>
    rw [List.forall_mem_cons] at h
    rw [List.cons_append] at hbody
    generalize hz : x ++ y = z at hbody
    cases hbody with
    | plain _ hrest =>
      obtain ⟨ds, rfl, hy⟩ := ih h.2 (hz ▸ hrest)
      exact ⟨ds, rfl, hy⟩
    | escape | unicode | pair => exact absurd h.1 (by decide)

theorem body_plain_append {cs : List Char} (h : ∀ c ∈ x, isPlain c = true) (hbody : Body y cs) :
    Body (x ++ y) (x ++ cs) := by
  induction x with
  | nil => exact hbody
  | cons a x ih =>
    rw [List.forall_mem_cons] at h
    exact .plain h.1 (ih h.2)

theorem isAsciiWord_of_hexValue {c : Char} {n : ℕ} (h : hexValue c = some n) :
    isAsciiWord c = true := by
  unfold hexValue at h
  split at h
  · next hdigit =>
    have hc : c.isDigit = true := by
      rw [Char.isDigit, Bool.and_eq_true, decide_eq_true_eq, decide_eq_true_eq]
      exact hdigit
    simp [isAsciiWord, Char.isAlphanum, hc]
  · split at h
    · next hlower =>
      have hz : 'f' ≤ 'z' := by decide
      have hc : c.isLower = true := by
        rw [Char.isLower, Bool.and_eq_true, decide_eq_true_eq, decide_eq_true_eq]
        exact ⟨hlower.1, Char.le_trans hlower.2 hz⟩
      simp [isAsciiWord, Char.isAlphanum, Char.isAlpha, hc]
    · split at h
      · next hupper =>
        have hc : c.isUpper = true := by
          have hz : 'F' ≤ 'Z' := by decide
          rw [Char.isUpper, decide_eq_true_eq]
          exact ⟨hupper.1, Char.le_trans hupper.2 hz⟩
        simp [isAsciiWord, Char.isAlphanum, Char.isAlpha, hc]
      · cases h

theorem isAsciiWord_of_hex4Value {a b c d : Char} {n : ℕ} (h : hex4Value a b c d = some n) :
    isAsciiWord a = true ∧ isAsciiWord b = true ∧ isAsciiWord c = true ∧ isAsciiWord d = true := by
  obtain ⟨_, ha, h⟩ := Option.bind_eq_some_iff.mp h
  obtain ⟨_, hb, h⟩ := Option.bind_eq_some_iff.mp h
  obtain ⟨_, hc, h⟩ := Option.bind_eq_some_iff.mp h
  obtain ⟨_, hd, -⟩ := Option.bind_eq_some_iff.mp h
  exact ⟨isAsciiWord_of_hexValue ha, isAsciiWord_of_hexValue hb, isAsciiWord_of_hexValue hc,
    isAsciiWord_of_hexValue hd⟩

theorem replaceWord_cons (hword : word ≠ []) (h : afterWord = true ∨ word.head? ≠ some c)
    (x : List Char) : replaceWord word other afterWord 0 (c :: x) =
      c :: replaceWord word other (isAsciiWord c) 0 x := by
  refine replaceWord_of_ne (h.imp_right fun hhead htake => ?_)
  rw [List.takeWhile_cons] at htake
  split at htake
  · exact hhead (htake ▸ rfl)
  · exact hword htake.symm

namespace Replaces

theorem head_ne (h : Replaces word other) {e : Char} (he : (simpleEscape e).isSome = true) :
    word.head? ≠ some e := by
  intro hhead
  rw [(h.head e hhead).1] at he
  cases he

theorem replaceWord_escape (h : Replaces word other) {e : Char}
    (he : (simpleEscape e).isSome = true) (afterWord : Bool) (x : List Char) :
    replaceWord word other afterWord 0 ('\\' :: e :: x) =
      '\\' :: e :: replaceWord word other (isAsciiWord e) 0 x := by
  rw [replaceWord_cons h.ne_nil (.inr (h.head_ne rfl)), replaceWord_cons h.ne_nil
    (.inr (h.head_ne he))]

theorem replaceWord_unicode (h : Replaces word other) {a b c d : Char} {n : ℕ}
    (hn : hex4Value a b c d = some n) (afterWord : Bool) (x : List Char) :
    replaceWord word other afterWord 0 ('\\' :: 'u' :: a :: b :: c :: d :: x) =
      '\\' :: 'u' :: a :: b :: c :: d :: replaceWord word other true 0 x := by
  obtain ⟨ha, hb, hc, hd⟩ := isAsciiWord_of_hex4Value hn
  have hu : word.head? ≠ some 'u' := fun hhead => (h.head 'u' hhead).2 rfl
  rw [replaceWord_cons h.ne_nil (.inr (h.head_ne rfl)), replaceWord_cons h.ne_nil (.inr hu),
    replaceWord_cons h.ne_nil (.inl (by decide)), ha, replaceWord_cons h.ne_nil (.inl rfl), hb,
    replaceWord_cons h.ne_nil (.inl rfl), hc, replaceWord_cons h.ne_nil (.inl rfl), hd]

end Replaces

theorem exists_body_cons {cs z z' : List Char} {c : Char}
    (h : ∃ ds, Body z ds ∧ (ds = cs ∨ other <:+: ds)) (hz : ∀ ds, Body z ds → Body z' (c :: ds)) :
    ∃ ds, Body z' ds ∧ (ds = c :: cs ∨ other <:+: ds) := by
  obtain ⟨ds, hds, hor⟩ := h
  refine ⟨c :: ds, hz ds hds, ?_⟩
  rcases hor with rfl | hinfix
  · exact .inl rfl
  · exact .inr (List.infix_cons hinfix)

/-- **What was read between quotes is read still**: as before, or with the other word in it. -/
theorem exists_body_replaceWord (h : Replaces word other) {cs : List Char} (hbody : Body x cs)
    (afterWord : Bool) : ∃ ds, Body (replaceWord word other afterWord 0 x) ds ∧
      (ds = cs ∨ other <:+: ds) := by
  -- by the length of the text, as a word may be skipped as a whole
  induction hn : x.length using Nat.strong_induction_on generalizing x cs afterWord with
  | _ n ih =>
    by_cases hmatch : afterWord = false ∧ x.takeWhile isAsciiWord = word
    · obtain ⟨rfl, htake⟩ := hmatch
      have hsplit : word ++ x.dropWhile isAsciiWord = x := by
        rw [← htake, List.takeWhile_append_dropWhile]
      rw [← hsplit] at hbody
      obtain ⟨ds, -, hrest⟩ := Body.of_plain_append h.plain hbody
      have hpos : 0 < word.length := List.length_pos_of_ne_nil h.ne_nil
      have hlt : (x.dropWhile isAsciiWord).length < n := by
        rw [← hn, ← hsplit, List.length_append, hsplit]
        omega
      obtain ⟨ds', hds', -⟩ := ih _ hlt hrest true rfl
      rw [replaceWord_match h.ne_nil htake]
      exact ⟨other ++ ds', body_plain_append h.other hds', .inr (List.prefix_append _ _).isInfix⟩
    · have hne : afterWord = true ∨ x.takeWhile isAsciiWord ≠ word := by
        cases afterWord with
        | true => exact .inl rfl
        | false => exact .inr fun htake => hmatch ⟨rfl, htake⟩
      cases hbody with
      | nil => exact ⟨[], by simpa using Body.nil, .inl rfl⟩
      | plain hc hrest =>
        rw [replaceWord_of_ne hne]
        refine exists_body_cons (ih _ ?_ hrest _ rfl) fun ds => Body.plain hc
        rw [← hn, List.length_cons]
        omega
      | escape he hrest =>
        rw [h.replaceWord_escape (by rw [he]; rfl)]
        refine exists_body_cons (ih _ ?_ hrest _ rfl) fun ds => Body.escape he
        simp only [← hn, List.length_cons]
        omega
      | unicode hunit hhigh hlow hrest =>
        rw [h.replaceWord_unicode hunit]
        refine exists_body_cons (ih _ ?_ hrest _ rfl) fun ds => Body.unicode hunit hhigh hlow
        simp only [← hn, List.length_cons]
        omega
      | pair hhigh hisHigh hlow hisLow hrest =>
        rw [h.replaceWord_unicode hhigh, h.replaceWord_unicode hlow]
        refine exists_body_cons (ih _ ?_ hrest _ rfl) fun ds =>
          Body.pair hhigh hisHigh hlow hisLow
        simp only [← hn, List.length_cons]
        omega

end Json
