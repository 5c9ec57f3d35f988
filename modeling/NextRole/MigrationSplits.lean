import Mathlib.Data.List.Induction
import NextRole.IndexCuts

/-!
# A migration is executed statement by statement

A text is cut in front of every match, be it in a comment, a literal, a body or amid a statement;
an index statement ends where the next match is, and not with its semicolon; and `UNIQUE` has no
match.  What is meant is: the parts have the tokens and the statements of the text, they are cut
outside of comments, literals and bodies, and an index statement has a part of its own.

## Main definitions

* `SplitFaithfully` — what is asked of the split.
* `MigrationText` — a text of statements that all end.
* `Splittable` — every match starts a statement, and statements next to an index statement are
  divided by a match.

## Main results

* `splitFaithfully_iff` — **a migration is split faithfully iff it is splittable**.
* `not_splitFaithfully` — an index statement and a further statement.
-/

namespace NextRole

open List SqlMode

/-! ### What is asked -/

/-- The statements that are executed have the tokens of the text and are its statements; no comment,
literal or body is cut; and an index statement is executed by itself. -/
structure SplitFaithfully (sql : String) : Prop where
  tokens : (splitSqlStatements sql).flatMap (fun one => tokensOf one.toList) = tokensOf sql.toList
  whole : (splitSqlStatements sql).flatMap (fun one => sqlStatements (tokensOf one.toList)) =
    sqlStatements (tokensOf sql.toList)
  uncut : ∀ before behind, sqlParts sql.toList = before ++ behind → before ≠ [] → behind ≠ [] →
    (code.after before.flatten).isCode = true
  alone : ∀ one ∈ splitSqlStatements sql, ∀ statement ∈ sqlStatements (tokensOf one.toList),
    isIndexStatement statement = true → sqlStatements (tokensOf one.toList) = [statement]

/-- Statements that all end with a semicolon, and what is open ends. -/
structure MigrationText (sql : String) : Prop where
  ended : (code.after sql.toList).ended = true
  terminated : EndsStatement (tokensOf sql.toList)

/-- A text that ends with a semicolon, apart from white space, or in a line comment: so that a
semicolon behind it is no token. -/
def ClosesStatement (cs : List Char) : Prop :=
  trim cs = [] ∨ (trim cs).getLast? = some ';' ∨ code.after (trim cs) = .line

/-- A place where a statement may start. -/
structure AtStatement (before : List Char) : Prop where
  reads : code.after before = .code
  ends : EndsStatement (code.marks before)
  closes : ClosesStatement before

/-- Every match starts a statement; the text ends with a semicolon or in a line comment; and of two
neighbouring statements of which one is an index statement the second has a match in front. -/
structure Splittable (sql : String) : Prop where
  starts : ∀ before behind, sql.toList = before ++ behind →
    (matchIndexStatement behind).isSome = true → AtStatement before
  closes : ClosesStatement sql.toList
  neighbours : ∀ before behind a b, sql.toList = before ++ behind → code.after before = .code →
    EndsStatement (code.marks before) → (sqlStatements (code.marks before)).getLast? = some a →
    (sqlStatements (tokensOf behind)).head? = some b →
    (isIndexStatement a = true ∨ isIndexStatement b = true) →
      ∃ trivia rest, behind = trivia ++ rest ∧ code.after trivia = .code ∧
        sqlStatements (code.marks trivia) = [] ∧ (matchIndexStatement rest).isSome = true

/-! ### One part -/

section Part

variable {part : List Char}

/-- A part is read as what is left of it when it is trimmed. -/
theorem trim_spec (part : List Char) : ((code.after part).ended = true ↔
    (code.after (trim part)).ended = true) ∧
      ((code.after part).ended = true → tokensOf (trim part) = tokensOf part) := by
  obtain ⟨before, behind, hpart, hbefore, hbehind⟩ := exists_trim part
  obtain ⟨hcode, hnone⟩ := blanks_code hbefore
  have hafter : code.after part = (code.after (trim part)).after behind := by
    conv_lhs => rw [hpart]
    rw [after_append, hcode, after_append]
  obtain ⟨hback, hforth⟩ := @blanks_spec (code.after (trim part)) behind hbehind
  have hiff : (code.after part).ended = true ↔ (code.after (trim part)).ended = true := by
    rw [hafter]
    exact ⟨hback, fun h => (hforth h).2⟩
  refine ⟨hiff, fun h => ?_⟩
  have htokens : tokensOf part = tokensOf (trim part ++ behind) := by
    conv_lhs => rw [hpart]
    rw [tokensOf_append hcode, hnone, nil_append]
  rw [htokens, tokensOf, tokensOf, marks_append, after_append, append_assoc,
    (hforth (hiff.mp h)).1]

/-- A semicolon is added to the tokens, unless the part has one at its end or ends in a comment. -/
theorem tokensOf_statementOf {one : String} (hended : (code.after part).ended = true)
    (hone : statementOf part = some one) :
    (ClosesStatement part → tokensOf one.toList = tokensOf part) ∧
      (¬ ClosesStatement part → tokensOf one.toList = tokensOf part ++ [semicolon]) := by
  obtain ⟨hiff, htokens⟩ := trim_spec part
  rw [← htokens hended]
  rw [statementOf] at hone
  split at hone
  · cases hone
  · next hne =>
    cases hone
    rw [String.toList_ofList]
    split
    · next hlast => exact ⟨fun _ => rfl, fun hnot => absurd (.inr (.inl hlast)) hnot⟩
    · next hlast =>
      have hmode := hiff.mp hended
      rw [ended, Bool.or_eq_true, decide_eq_true_eq] at hmode
      rcases hmode with hcode | hline
      · have hstep := step_of_separates hcode (by decide : separates ';' = true)
        refine ⟨fun hcloses => ?_, fun _ => ?_⟩
        · rcases hcloses with hnil | hlast' | hline
          · exact absurd hnil hne
          · exact absurd hlast' hlast
          · rw [hline] at hcode
            cases hcode
        · rw [tokensOf, marks_append, after_append, after_cons, marks_cons, hstep]
          simp [tokensOf, held]
          rfl
      · refine ⟨fun _ => ?_, fun hnot => absurd (.inr (.inr hline)) hnot⟩
        rw [tokensOf, tokensOf, marks_append, after_append, hline]
        simp [step, held]

theorem statementOf_eq_none : statementOf part = none ↔ trim part = [] := by
  rw [statementOf]
  split
  · next hnil => simp [hnil]
  · next hne => simp [hne]

theorem tokensOf_of_trim (h : trim part = []) : tokensOf part = [] := by
  obtain ⟨hcode, hnone⟩ := blanks_code (trim_eq_nil_iff.mp h)
  rw [tokensOf_of_after hcode, hnone]

/-- Blanks behind code or a line comment lead to code or to a line comment. -/
theorem after_blanks {m : SqlMode} {cs : List Char} (hm : m = .code ∨ m = .line)
    (hcs : ∀ c ∈ cs, isSpace c = true) : m.after cs = .code ∨ m.after cs = .line := by
  induction cs generalizing m with
  | nil => exact hm
  | cons c cs ih =>
    rw [forall_mem_cons] at hcs
    rw [after_cons]
    apply ih _ hcs.2
    rcases hm with rfl | rfl
    · have hsep : separates c = true := by rw [separates, hcs.1, Bool.true_or]
      rw [step_of_separates rfl hsep]
      exact .inl rfl
    · rw [step]
      dsimp only
      split
      · exact .inl rfl
      · exact .inr rfl

/-- **Behind a part that closes** there is code, if it is not in a comment. -/
theorem ClosesStatement.after (h : ClosesStatement part) (hcode : (code.after part).isCode = true) :
    code.after part = .code := by
  obtain ⟨before, behind, hpart, hbefore, hbehind⟩ := exists_trim part
  have hafter : code.after part = (code.after (trim part)).after behind := by
    conv_lhs => rw [hpart]
    rw [after_append, (blanks_code hbefore).1, after_append]
  have htrim : code.after (trim part) = .code ∨ code.after (trim part) = .line := by
    rcases h with hnil | hlast | hline
    · rw [hnil]
      exact .inl rfl
    · obtain ⟨init, hinit⟩ := getLast?_eq_some_iff.mp hlast
      have hended : (code.after (trim part)).ended = true := by
        rw [← (trim_spec part).1, ended, hcode, Bool.true_or]
      rw [hinit, after_append, after_cons, after_nil] at hended ⊢
      have hmode := ended_of_step (by decide : separates ';' = true) hended
      rw [ended, Bool.or_eq_true, decide_eq_true_eq] at hmode
      rcases hmode with hmode | hmode
      · rw [step_of_separates hmode (by decide)]
        exact .inl rfl
      · rw [hmode]
        exact .inr rfl
    · exact .inr hline
  rcases after_blanks htrim hbehind with heq | heq
  · rw [hafter, heq]
  · rw [hafter, heq] at hcode
    cases hcode

end Part

/-! ### All parts -/

/-- Parts that each close, and of which each but the last ends a statement. -/
def Closing : List (List Char) → Prop
  | [] => True
  | [part] => ClosesStatement part ∧ (code.after part).ended = true
  | part :: following :: parts => ClosesStatement part ∧ code.after part = .code ∧
      EndsStatement (code.marks part) ∧ Closing (following :: parts)

theorem Closing.closes {parts : List (List Char)} (h : Closing parts) :
    ∀ part ∈ parts, ClosesStatement part ∧ (code.after part).ended = true := by
  induction parts using twoStepInduction with
  | nil => exact fun _ hpart => by cases hpart
  | singleton part => exact fun _ hpart => mem_singleton.mp hpart ▸ h
  | cons_cons part following parts _ ih =>
    rw [forall_mem_cons]
    refine ⟨⟨h.1, ?_⟩, ih following h.2.2.2⟩
    rw [h.2.1]
    rfl

/-- **The tokens and the statements** of parts that close are those of the text. -/
theorem Closing.flatten {parts : List (List Char)} (h : Closing parts) :
    parts.flatMap tokensOf = tokensOf parts.flatten ∧
      parts.flatMap (fun part => sqlStatements (tokensOf part)) =
        sqlStatements (tokensOf parts.flatten) := by
  induction parts using twoStepInduction with
  | nil => exact ⟨rfl, rfl⟩
  | singleton part => simp
  | cons_cons part following parts _ ih =>
    obtain ⟨-, hcode, hends, hrest⟩ := h
    obtain ⟨htokens, hstatements⟩ := ih following hrest
    have htext : tokensOf (part :: following :: parts).flatten =
        tokensOf part ++ tokensOf (following :: parts).flatten := by
      rw [flatten_cons, tokensOf_append hcode, tokensOf_of_after hcode]
    rw [htext, tokensOf_of_after hcode, statements_append hends]
    constructor
    · rw [flatMap_cons, htokens, tokensOf_of_after hcode]
    · rw [flatMap_cons, hstatements, tokensOf_of_after hcode]

/-- What is executed of parts that close has their tokens. -/
theorem flatMap_statementOf {parts : List (List Char)}
    (hcloses : ∀ part ∈ parts, ClosesStatement part ∧ (code.after part).ended = true) {β : Type}
    (f : List SqlMark → List β) (hf : f [] = []) :
    (parts.filterMap statementOf).flatMap (fun one => f (tokensOf one.toList)) =
      parts.flatMap fun part => f (tokensOf part) := by
  induction parts with
  | nil => rfl
  | cons part parts ih =>
    rw [forall_mem_cons] at hcloses
    rw [flatMap_cons, ← ih hcloses.2]
    cases hone : statementOf part with
    | none =>
      rw [filterMap_cons_none hone, tokensOf_of_trim (statementOf_eq_none.mp hone), hf]
      rfl
    | some one =>
      rw [filterMap_cons_some hone, flatMap_cons,
        (tokensOf_statementOf hcloses.1.2 hone).1 hcloses.1.1]

/-- Parts in front of others end a statement. -/
theorem Closing.of_append {as bs : List (List Char)} (h : Closing (as ++ bs)) (hbs : bs ≠ []) :
    code.after as.flatten = .code ∧ EndsStatement (code.marks as.flatten) ∧ Closing bs := by
  induction as with
  | nil => exact ⟨rfl, .inl rfl, h⟩
  | cons part as ih =>
    have hcons : ClosesStatement part ∧ code.after part = .code ∧
        EndsStatement (code.marks part) ∧ Closing (as ++ bs) := by
      cases hrest : as ++ bs with
      | nil => exact absurd (append_eq_nil_iff.mp hrest).2 hbs
      | cons following parts =>
        rw [cons_append, hrest] at h
        exact h
    obtain ⟨-, hcode, hends, hrest⟩ := hcons
    obtain ⟨hafter, hmarks, hbs⟩ := ih hrest
    rw [flatten_cons, after_append, marks_append, hcode]
    exact ⟨hafter, hends.append hmarks, hbs⟩

theorem after_dropWhile (cs : List Char) :
    code.after (cs.dropWhile isSpace) = code.after cs := by
  obtain ⟨hcode, -⟩ := @blanks_code (cs.takeWhile isSpace) fun c hc => mem_takeWhile_imp hc
  conv_rhs => rw [← @takeWhile_append_dropWhile _ isSpace cs, after_append, hcode]

theorem closesStatement_append {cs part : List Char} (hcs : code.after cs = .code)
    (hpart : StartsWithWord part) : ClosesStatement (cs ++ part) ↔ ClosesStatement part := by
  have hne := hpart.trim_ne_nil
  have hmode : code.after (cs.dropWhile isSpace ++ trim part) = code.after (trim part) := by
    rw [after_append, after_dropWhile, hcs]
  rw [ClosesStatement, ClosesStatement, trim_append hpart.noBlank hne, hmode,
    getLast?_append_of_ne_nil _ hne]
  simp [hne]

/-- Parts that close make up a text that closes. -/
theorem Closing.closes_flatten {parts : List (List Char)} (h : Closing parts)
    (hwords : ∀ part ∈ parts.tail, StartsWithWord part) : ClosesStatement parts.flatten := by
  rcases eq_nil_or_concat parts with rfl | ⟨init, part, rfl⟩
  · exact .inl rfl
  · rw [concat_eq_append] at *
    have hcloses := (h.closes part (by simp)).1
    rw [flatten_append, flatten_singleton]
    cases init with
    | nil => exact hcloses
    | cons first init =>
      rw [closesStatement_append (h.of_append (cons_ne_nil _ _)).1 (hwords part (by simp))]
      exact hcloses

theorem Closing.left {as bs : List (List Char)} (h : Closing (as ++ bs)) : Closing as := by
  induction as using twoStepInduction with
  | nil => trivial
  | singleton part =>
    cases bs with
    | nil => exact h
    | cons following bs =>
      refine ⟨h.1, ?_⟩
      rw [h.2.1]
      rfl
  | cons_cons part following parts _ ih => exact ⟨h.1, h.2.1, h.2.2.1, ih following h.2.2.2⟩

/-- **A cut between parts that close is where a statement may start.** -/
theorem Closing.atStatement {as bs : List (List Char)} (h : Closing (as ++ bs)) (has : as ≠ [])
    (hbs : bs ≠ []) (hwords : ∀ part ∈ (as ++ bs).tail, StartsWithWord part) :
    AtStatement as.flatten := by
  obtain ⟨hcode, hends, -⟩ := h.of_append hbs
  refine ⟨hcode, hends, h.left.closes_flatten fun part hpart => hwords part ?_⟩
  obtain ⟨first, as, rfl⟩ := exists_cons_of_ne_nil has
  exact mem_append_left bs hpart

theorem closesStatement_of_append {cs part : List Char} (hcs : code.after cs = .code)
    (hpart : cs = [] ∨ StartsWithWord part) (h : ClosesStatement (cs ++ part)) :
    ClosesStatement part := by
  rcases hpart with rfl | hword
  · exact h
  · exact (closesStatement_append hcs hword).mp h

/-- **Parts that are cut where statements start** close. -/
theorem closing_of_atStatement {parts : List (List Char)} {cs : List Char}
    (hcs : code.after cs = .code) (hfirst : ∀ part ∈ parts.head?, cs = [] ∨ StartsWithWord part)
    (hwords : ∀ part ∈ parts.tail, StartsWithWord part)
    (hcuts : ∀ as bs, parts = as ++ bs → as ≠ [] → bs ≠ [] → AtStatement (cs ++ as.flatten))
    (hended : (code.after (cs ++ parts.flatten)).ended = true)
    (hcloses : ClosesStatement (cs ++ parts.flatten)) : Closing parts := by
  induction parts using twoStepInduction generalizing cs with
  | nil => trivial
  | singleton part =>
    rw [flatten_singleton] at hended hcloses
    rw [after_append, hcs] at hended
    exact ⟨closesStatement_of_append hcs (hfirst part rfl) hcloses, hended⟩
  | cons_cons part following parts _ ih =>
    have hat := hcuts [part] (following :: parts) rfl (cons_ne_nil _ _) (cons_ne_nil _ _)
    rw [flatten_singleton] at hat
    have hcode := hat.reads
    have hends := hat.ends
    rw [after_append, hcs] at hcode
    rw [marks_append, hcs] at hends
    have hassoc : ∀ l : List (List Char), cs ++ (part :: l).flatten = cs ++ part ++ l.flatten := by
      intro l
      rw [flatten_cons, append_assoc]
    have hnext : ∀ p ∈ (following :: parts).head?, cs ++ part = [] ∨ StartsWithWord p := by
      intro p hp
      cases hp
      exact .inr (hwords following mem_cons_self)
    have hrest := ih following hat.reads hnext (fun p hp => hwords p (mem_cons_of_mem _ hp))
      (fun as bs heq _ hbs => ?_) (by rw [← hassoc]; exact hended) (by rw [← hassoc]; exact hcloses)
    · exact ⟨closesStatement_of_append hcs (hfirst part rfl) hat.closes, hcode, hends.of_append,
        hrest⟩
    · rw [← hassoc]
      exact hcuts (part :: as) bs (by rw [heq, cons_append]) (cons_ne_nil _ _) hbs

/-! ### A faithful split -/

/-- A word that is cut off is read as the text begins there, up to semicolons. -/
theorem reads_word {part : List Char} {m : SqlMode} (hm : m.isCode = true)
    (h : m = .code ∨ StartsWithWord part) : m.after part = code.after part ∧
      (m.marks part).count semicolon = (code.marks part).count semicolon := by
  rcases h with rfl | ⟨word, c, tail, rfl, -, hword, hc⟩
  · exact ⟨rfl, rfl⟩
  · have hsplit : word ++ c :: tail = word ++ [c] ++ tail := by simp
    have hread : ∀ n : SqlMode, n.isCode = true → n.after (word ++ c :: tail) = code.after tail ∧
        (n.marks (word ++ c :: tail)).count semicolon = (code.marks tail).count semicolon := by
      intro n hn
      obtain ⟨hafter, hnone⟩ := after_word hn hword hc
      rw [hsplit, after_append, marks_append, hafter, count_append, count_eq_zero_of_not_mem hnone,
        Nat.zero_add]
      exact ⟨rfl, rfl⟩
    obtain ⟨hafter, hcount⟩ := hread m hm
    obtain ⟨hafter', hcount'⟩ := hread .code rfl
    exact ⟨hafter.trans hafter'.symm, hcount.trans hcount'.symm⟩

theorem count_tokensOf (cs : List Char) :
    (tokensOf cs).count semicolon = (code.marks cs).count semicolon := by
  rw [tokensOf, count_append, count_eq_zero_of_not_mem (semicolon_notMem_held _), Nat.add_zero]

/-- Parts that are each read to a place in code. -/
def CodeCuts : List (List Char) → Prop
  | [] => True
  | [part] => (code.after part).ended = true
  | part :: following :: parts => (code.after part).isCode = true ∧ CodeCuts (following :: parts)

theorem CodeCuts.ended {parts : List (List Char)} (h : CodeCuts parts) :
    ∀ part ∈ parts, (code.after part).ended = true := by
  induction parts using twoStepInduction with
  | nil => exact fun _ hpart => by cases hpart
  | singleton part => exact fun _ hpart => mem_singleton.mp hpart ▸ h
  | cons_cons part following parts _ ih =>
    rw [forall_mem_cons]
    refine ⟨?_, ih following h.2⟩
    rw [SqlMode.ended, h.1, Bool.true_or]

/-- **No semicolon is lost where code is cut.** -/
theorem codeCuts_of_uncut {parts : List (List Char)} {m : SqlMode} (hm : m.isCode = true)
    (hfirst : ∀ part ∈ parts.head?, m = .code ∨ StartsWithWord part)
    (hwords : ∀ part ∈ parts.tail, StartsWithWord part)
    (hcuts : ∀ as bs, parts = as ++ bs → as ≠ [] → bs ≠ [] → (m.after as.flatten).isCode = true)
    (hended : (m.after parts.flatten).ended = true) : CodeCuts parts ∧
      (m.marks parts.flatten).count semicolon =
        (parts.map fun part => (tokensOf part).count semicolon).sum := by
  induction parts using twoStepInduction generalizing m with
  | nil => exact ⟨trivial, rfl⟩
  | singleton part =>
    obtain ⟨hafter, hcount⟩ := reads_word hm (hfirst part rfl)
    rw [flatten_singleton] at hended ⊢
    rw [hafter] at hended
    refine ⟨hended, ?_⟩
    rw [hcount, map_singleton, sum_singleton, count_tokensOf]
  | cons_cons part following parts _ ih =>
    obtain ⟨hafter, hcount⟩ := reads_word hm (hfirst part rfl)
    have hcode := hcuts [part] (following :: parts) rfl (cons_ne_nil _ _) (cons_ne_nil _ _)
    rw [flatten_singleton] at hcode
    rw [flatten_cons, after_append] at hended
    obtain ⟨hrest, hsum⟩ := ih following hcode
      (fun p hp => by cases hp; exact .inr (hwords following mem_cons_self))
      (fun p hp => hwords p (mem_cons_of_mem _ hp))
      (fun as bs heq _ hbs => by
        rw [← after_append, ← flatten_cons]
        exact hcuts (part :: as) bs (by rw [heq, cons_append]) (cons_ne_nil _ _) hbs) hended
    refine ⟨⟨hafter ▸ hcode, hrest⟩, ?_⟩
    rw [flatten_cons, marks_append, count_append, hsum, hcount, ← count_tokensOf]
    rfl

/-- **A semicolon is added for each part that does not close.** -/
theorem count_statements {parts : List (List Char)}
    (hended : ∀ part ∈ parts, (code.after part).ended = true) :
    (parts.map fun part => (tokensOf part).count semicolon).sum ≤
        ((parts.filterMap statementOf).flatMap fun one => tokensOf one.toList).count semicolon ∧
      (((parts.filterMap statementOf).flatMap fun one => tokensOf one.toList).count semicolon =
        (parts.map fun part => (tokensOf part).count semicolon).sum →
          ∀ part ∈ parts, ClosesStatement part) := by
  induction parts with
  | nil => exact ⟨le_rfl, fun _ _ h => by cases h⟩
  | cons part parts ih =>
    rw [forall_mem_cons] at hended
    obtain ⟨hle, hcloses⟩ := ih hended.2
    rw [map_cons, sum_cons, forall_mem_cons]
    cases hone : statementOf part with
    | none =>
      have htrim := statementOf_eq_none.mp hone
      rw [filterMap_cons_none hone, tokensOf_of_trim htrim, count_nil, Nat.zero_add]
      exact ⟨hle, fun heq => ⟨.inl htrim, hcloses heq⟩⟩
    | some one =>
      obtain ⟨hkeeps, hadds⟩ := tokensOf_statementOf hended.1 hone
      rw [filterMap_cons_some hone, flatMap_cons, count_append]
      by_cases hpart : ClosesStatement part
      · rw [hkeeps hpart]
        exact ⟨by omega, fun heq => ⟨hpart, hcloses (by omega)⟩⟩
      · rw [hadds hpart, count_append, count_singleton_self]
        exact ⟨by omega, fun heq => by omega⟩

theorem step_code_of_isAlpha {c : Char} (hc : c.isAlpha = true) :
    code.step c = (.word (c = 'e' || c = 'E'), [.first c]) := by
  rw [step, SqlMode.next, begin_of_isAlpha hc]
  rfl

theorem StartsWithWord.isAlpha {c : Char} {cs : List Char} (h : StartsWithWord (c :: cs)) :
    c.isAlpha = true := by
  obtain ⟨word, d, tail, heq, hne, hword, -⟩ := h
  obtain ⟨e, word, rfl⟩ := exists_cons_of_ne_nil hne
  obtain ⟨rfl, -⟩ := cons.inj heq
  exact hword c mem_cons_self

/-- The first token of a part that starts with a word is no semicolon. -/
theorem tokensOf_word {cs : List Char} (h : StartsWithWord cs) :
    ∃ t ts, tokensOf cs = t :: ts ∧ t ≠ semicolon := by
  obtain ⟨word, c, tail, rfl, hne, hword, -⟩ := h
  cases word with
  | nil => exact absurd rfl hne
  | cons d word =>
    have hd := hword d mem_cons_self
    have hstep := step_code_of_isAlpha hd
    have htokens : ∀ cs : List Char, tokensOf (d :: cs) = .first d ::
        ((SqlMode.word (d = 'e' || d = 'E')).marks cs ++
          ((SqlMode.word (d = 'e' || d = 'E')).after cs).held) := by
      intro cs
      rw [tokensOf, marks_cons, after_cons, hstep]
      rfl
    exact ⟨.first d, _, htokens _,
      fun heq => ne_of_isAlpha hd (by decide) (SqlMark.first.inj heq)⟩

/-- Parts of which each but the last is read to where no token is open. -/
def OpenCuts : List (List Char) → Prop
  | [] => True
  | [_] => True
  | part :: following :: parts => code.after part = .code ∧ OpenCuts (following :: parts)

/-- **A statement is added for each cut amid one.** -/
theorem length_statements {parts : List (List Char)} (h : OpenCuts parts)
    (hcloses : ∀ part ∈ parts, ClosesStatement part ∧ (code.after part).ended = true)
    (hwords : ∀ part ∈ parts.tail, StartsWithWord part) :
    (sqlStatements (tokensOf parts.flatten)).length ≤
        (parts.map fun part => (sqlStatements (tokensOf part)).length).sum ∧
      ((sqlStatements (tokensOf parts.flatten)).length =
        (parts.map fun part => (sqlStatements (tokensOf part)).length).sum → Closing parts) := by
  induction parts using twoStepInduction with
  | nil => exact ⟨le_rfl, fun _ => trivial⟩
  | singleton part =>
    rw [flatten_singleton, map_singleton, sum_singleton]
    exact ⟨le_rfl, fun _ => hcloses part mem_cons_self⟩
  | cons_cons part following parts _ ih =>
    obtain ⟨hcode, hrest⟩ := h
    rw [forall_mem_cons] at hcloses
    obtain ⟨hle, hclosing⟩ :=
      ih following hrest hcloses.2 fun p hp => hwords p (mem_cons_of_mem _ hp)
    have hsum : ((part :: following :: parts).map fun part =>
          (sqlStatements (tokensOf part)).length).sum =
        (sqlStatements (code.marks part)).length +
          ((following :: parts).map fun part => (sqlStatements (tokensOf part)).length).sum := by
      rw [← tokensOf_of_after hcode]
      rfl
    rw [flatten_cons, tokensOf_append hcode, hsum]
    by_cases hends : EndsStatement (code.marks part)
    · rw [statements_append hends, length_append]
      exact ⟨by omega, fun heq => ⟨hcloses.1.1, hcode, hends, hclosing (by omega)⟩⟩
    · obtain ⟨hne, hlast⟩ := not_or.mp hends
      have hnext : StartsWithWord (following :: parts).flatten := by
        rw [flatten_cons]
        exact (hwords following mem_cons_self).append _
      obtain ⟨t, ts, htokens, ht⟩ := tokensOf_word hnext
      have hshared := @length_statementsFrom_append [] _ ts t hlast hne ht
      rw [htokens] at hle ⊢
      have hlength : (sqlStatements (code.marks part ++ t :: ts)).length + 1 =
          (sqlStatements (code.marks part)).length + (sqlStatements (t :: ts)).length := hshared
      exact ⟨by omega, fun heq => by omega⟩

theorem CodeCuts.openCuts {parts : List (List Char)} (h : CodeCuts parts)
    (hcloses : ∀ part ∈ parts, ClosesStatement part) : OpenCuts parts := by
  induction parts using twoStepInduction with
  | nil => trivial
  | singleton part => trivial
  | cons_cons part following parts _ ih =>
    rw [forall_mem_cons] at hcloses
    exact ⟨hcloses.1.after h.1, ih following h.2 hcloses.2⟩

section Text

variable {sql : String}

/-- **The parts of a faithful split close.** -/
theorem SplitFaithfully.closing (h : SplitFaithfully sql) (hsql : MigrationText sql) :
    Closing (sqlParts sql.toList) := by
  obtain ⟨part, parts, hparts, -, hscanned⟩ := scanned_sqlParts sql.toList
  have hflatten := flatten_sqlParts sql.toList
  have hwords : ∀ p ∈ (sqlParts sql.toList).tail, StartsWithWord p := by
    rw [hparts]
    exact hscanned.startsWithWord
  obtain ⟨hcuts, hcount⟩ := codeCuts_of_uncut (m := .code) rfl (fun _ _ => .inl rfl) hwords
    (fun as bs heq has hbs => h.uncut as bs heq has hbs) (by rw [hflatten]; exact hsql.ended)
  -- no semicolon was added, so each part closes
  have hcloses : ∀ p ∈ sqlParts sql.toList, ClosesStatement p := by
    apply (count_statements hcuts.ended).2
    rw [← splitSqlStatements_eq, h.tokens, ← hcount, hflatten, count_tokensOf]
  have hall : ∀ p ∈ sqlParts sql.toList, ClosesStatement p ∧ (code.after p).ended = true :=
    fun p hp => ⟨hcloses p hp, hcuts.ended p hp⟩
  -- and no statement was, so each cut is between two
  apply (length_statements (hcuts.openCuts hcloses) hall hwords).2
  rw [hflatten, ← h.whole, splitSqlStatements_eq, flatMap_statementOf hall sqlStatements rfl,
    length_flatMap]

/-- **A splittable text has parts that close.** -/
theorem Splittable.closing (h : Splittable sql) (hsql : MigrationText sql) :
    Closing (sqlParts sql.toList) := by
  obtain ⟨part, parts, hparts, -, hscanned⟩ := scanned_sqlParts sql.toList
  have hflatten := flatten_sqlParts sql.toList
  refine @closing_of_atStatement _ [] rfl (fun _ _ => .inl rfl) ?_ ?_ ?_ ?_
  · rw [hparts]
    exact hscanned.startsWithWord
  · intro as bs heq has hbs
    obtain ⟨following, bs, rfl⟩ := exists_cons_of_ne_nil hbs
    refine h.starts as.flatten (following :: bs).flatten ?_ ?_
    · rw [← flatten_append, ← heq, hflatten]
    · rw [flatten_cons]
      exact match_of_cut heq has
  · rw [nil_append, hflatten]
    exact hsql.ended
  · rw [nil_append, hflatten]
    exact h.closes

/-- The statements behind a place in a part begin with those of the part. -/
theorem statements_behind {as bs : List (List Char)} {u v : List Char}
    (h : Closing (as ++ (u ++ v) :: bs)) (hu : code.after u = .code) : ∃ later,
      sqlStatements (tokensOf (v ++ bs.flatten)) = sqlStatements (tokensOf v) ++ later ∧
        (bs ≠ [] → code.after v = .code) := by
  cases bs with
  | nil =>
    rw [flatten_nil, append_nil]
    exact ⟨[], (append_nil _).symm, fun hne => absurd rfl hne⟩
  | cons following bs =>
    obtain ⟨-, -, -, hcode, hends, -⟩ := h.of_append (cons_ne_nil _ _)
    rw [after_append, hu] at hcode
    rw [marks_append, hu] at hends
    rw [tokensOf_append hcode, tokensOf_of_after hcode, statements_append hends.of_append]
    exact ⟨_, rfl, fun _ => hcode⟩

theorem mem_splitSqlStatements (h : Closing (sqlParts sql.toList)) {one : String} :
    one ∈ splitSqlStatements sql ↔ ∃ part ∈ sqlParts sql.toList, statementOf part = some one ∧
      tokensOf one.toList = tokensOf part := by
  rw [splitSqlStatements_eq, mem_filterMap]
  refine exists_congr fun part => and_congr_right fun hpart => ?_
  have hcloses := h.closes part hpart
  exact ⟨fun hone => ⟨hone, (tokensOf_statementOf hcloses.2 hone).1 hcloses.1⟩, fun hone => hone.1⟩

/-- Two statements of one part, one of them an index statement, have a match between them. -/
theorem Splittable.not_neighbours (h : Splittable sql) (hparts : Closing (sqlParts sql.toList))
    {part : List Char} (hpart : part ∈ sqlParts sql.toList) {before rest : List (List SqlMark)}
    {a b : List SqlMark} (heq : sqlStatements (tokensOf part) = before ++ a :: b :: rest)
    (hindex : isIndexStatement a = true ∨ isIndexStatement b = true) : False := by
  obtain ⟨as, bs, hsplit⟩ := append_of_mem hpart
  obtain ⟨xs, ys, htokens, hxs, hys⟩ := exists_of_statementsFrom heq
  obtain ⟨u, v, rfl, hu, hmarks, rfl⟩ := exists_of_semicolon htokens
  rw [hsplit] at hparts
  obtain ⟨has, hasEnds, -⟩ := hparts.of_append (cons_ne_nil _ _)
  obtain ⟨later, hlater, hcode⟩ := statements_behind hparts hu
  have htext : sql.toList = as.flatten ++ u ++ (v ++ bs.flatten) := by
    rw [← flatten_sqlParts sql.toList, hsplit, flatten_append, flatten_cons]
    simp only [append_assoc]
  have hends : EndsStatement (code.marks u) := by
    rw [hmarks]
    exact .inr getLast?_concat
  have hlast : (sqlStatements (code.marks (as.flatten ++ u))).getLast? = some a := by
    rw [marks_append, has, statements_append hasEnds, hmarks, sqlStatements, sqlStatements, hxs,
      ← append_assoc, getLast?_concat]
  have hhead : (sqlStatements (tokensOf (v ++ bs.flatten))).head? = some b := by
    rw [hlater, hys]
    rfl
  obtain ⟨trivia, tail, hbehind, htrivia, hnone, hmatch⟩ := h.neighbours (as.flatten ++ u)
    (v ++ bs.flatten) a b htext (by rw [after_append, has, hu])
    (by rw [marks_append, has]; exact hasEnds.append hends) hlast hhead hindex
  have hu_ne : u ≠ [] := by
    rintro rfl
    simp at hmarks
  -- the part goes on behind the match, or what is between has a statement
  have hsome : code.after v = .code → sqlStatements (code.marks v) ≠ [] := by
    intro hv
    rw [← tokensOf_of_after hv, hys]
    exact cons_ne_nil b rest
  rcases append_eq_append_iff.mp hbehind with ⟨t', rfl, htail⟩ | ⟨v', rfl, rfl⟩
  · cases bs with
    | nil =>
      rw [(append_eq_nil_iff.mp htail.symm).2] at hmatch
      cases hmatch
    | cons following bs =>
      have hv := hcode (cons_ne_nil following bs)
      rw [marks_append, statements_eq_nil_iff] at hnone
      apply hsome hv
      rw [statements_eq_nil_iff]
      exact fun t ht => hnone t (mem_append_left _ ht)
  · cases v' with
    | nil =>
      rw [append_nil] at hsome
      exact hsome htrivia hnone
    | cons c v' =>
      rw [← append_assoc] at hsplit
      have hinside := not_match_of_inside hsplit
        (append_ne_nil_of_left_ne_nil hu_ne trivia) (cons_ne_nil c v')
      rw [hinside] at hmatch
      cases hmatch

/-- **An index statement of a splittable text is alone.** -/
theorem Splittable.alone (h : Splittable sql) (hparts : Closing (sqlParts sql.toList)) :
    ∀ one ∈ splitSqlStatements sql, ∀ statement ∈ sqlStatements (tokensOf one.toList),
      isIndexStatement statement = true → sqlStatements (tokensOf one.toList) = [statement] := by
  intro one hone statement hstatement hindex
  obtain ⟨part, hpart, -, htokens⟩ := (mem_splitSqlStatements hparts).mp hone
  rw [htokens] at hstatement ⊢
  obtain ⟨before, rest, heq⟩ := append_of_mem hstatement
  rw [heq]
  cases rest with
  | cons b rest => exact (h.not_neighbours hparts hpart heq (.inl hindex)).elim
  | nil =>
    rcases eq_nil_or_concat before with rfl | ⟨init, a, rfl⟩
    · rfl
    · rw [concat_eq_append, append_assoc] at heq
      exact (h.not_neighbours hparts hpart heq (.inr hindex)).elim

/-- No part of a faithful split has an index statement and one next to it. -/
theorem SplitFaithfully.not_two (h : SplitFaithfully sql) (hparts : Closing (sqlParts sql.toList))
    {part : List Char} (hpart : part ∈ sqlParts sql.toList) {before rest : List (List SqlMark)}
    {a b : List SqlMark} (heq : sqlStatements (tokensOf part) = before ++ a :: b :: rest)
    (hindex : isIndexStatement a = true ∨ isIndexStatement b = true) : False := by
  cases hone : statementOf part with
  | none =>
    rw [tokensOf_of_trim (statementOf_eq_none.mp hone)] at heq
    have hlength := congrArg length heq
    simp [sqlStatements, statementsFrom] at hlength
  | some one =>
    have hcloses := hparts.closes part hpart
    have htokens := (tokensOf_statementOf hcloses.2 hone).1 hcloses.1
    have halone := h.alone one ((mem_splitSqlStatements hparts).mpr ⟨part, hpart, hone, htokens⟩)
    rw [htokens, heq] at halone
    have hsingle : ∀ statement, statement ∈ before ++ a :: b :: rest →
        isIndexStatement statement = true → False := by
      intro statement hmem hstatement
      have hlength := congrArg length (halone statement hmem hstatement)
      simp only [length_append, length_cons, length_nil] at hlength
      omega
    rcases hindex with ha | hb
    · exact hsingle a (by simp) ha
    · exact hsingle b (by simp) hb

/-- **Statements next to an index statement that is alone** are divided by a match. -/
theorem SplitFaithfully.neighbours (h : SplitFaithfully sql)
    (hparts : Closing (sqlParts sql.toList)) {before behind : List Char} {a b : List SqlMark}
    (htext : sql.toList = before ++ behind) (hbefore : code.after before = .code)
    (hends : EndsStatement (code.marks before))
    (ha : (sqlStatements (code.marks before)).getLast? = some a)
    (hb : (sqlStatements (tokensOf behind)).head? = some b)
    (hindex : isIndexStatement a = true ∨ isIndexStatement b = true) :
    ∃ trivia rest, behind = trivia ++ rest ∧ code.after trivia = .code ∧
      sqlStatements (code.marks trivia) = [] ∧ (matchIndexStatement rest).isSome = true := by
  have hne : before ≠ [] := by
    rintro rfl
    cases ha
  have hne' : behind ≠ [] := by
    rintro rfl
    cases hb
  -- a cut here is a match
  have hcut : ∀ as bs, sqlParts sql.toList = as ++ bs → before = as.flatten → behind = bs.flatten →
      ∃ trivia rest, behind = trivia ++ rest ∧ code.after trivia = .code ∧
        sqlStatements (code.marks trivia) = [] ∧ (matchIndexStatement rest).isSome = true := by
    rintro as bs hsplit rfl rfl
    cases bs with
    | nil => exact absurd rfl hne'
    | cons part bs =>
      exact ⟨[], _, rfl, rfl, rfl, match_of_cut hsplit fun has => hne (by rw [has]; rfl)⟩
  have hflatten := flatten_sqlParts sql.toList
  rw [htext, flatten_eq_append_iff] at hflatten
  rw [← htext] at hflatten
  rcases hflatten with ⟨as, bs, hsplit, hpre, hsuf⟩ | ⟨as, u, c, v, ds, hsplit, rfl, rfl⟩
  · exact hcut as bs hsplit hpre hsuf
  by_cases hu : u = []
  · subst hu
    exact hcut as ((c :: v) :: ds) hsplit (append_nil _) rfl
  rw [hsplit] at hparts
  obtain ⟨has, hasEnds, -⟩ := hparts.of_append (cons_ne_nil _ _)
  rw [after_append, has] at hbefore
  rw [marks_append, has] at hends ha
  obtain ⟨later, hlater, hcode⟩ := statements_behind hparts hbefore
  cases hv : sqlStatements (tokensOf (c :: v)) with
  | nil =>
    -- what is left of the part has no statement: the next part is one
    cases ds with
    | nil =>
      rw [flatten_nil, append_nil, hv] at hb
      cases hb
    | cons following ds =>
      have hafter := hcode (cons_ne_nil following ds)
      refine ⟨c :: v, (following :: ds).flatten, rfl, hafter, ?_, ?_⟩
      · rw [← tokensOf_of_after hafter, hv]
      · rw [flatten_cons]
        exact @match_of_cut _ (as ++ [u ++ c :: v]) _ _ (by rw [hsplit]; simp) (by simp)
  | cons x xs =>
    -- both statements are in this part, and neither is alone
    have hbx : x = b := by
      rw [hlater, hv] at hb
      exact Option.some.inj hb
    subst hbx
    have hsome : sqlStatements (code.marks u) ≠ [] := by
      intro hnone
      rw [statements_append hasEnds, hnone, append_nil] at ha
      obtain ⟨d, u, rfl⟩ := exists_cons_of_ne_nil hu
      cases as with
      | nil => cases ha
      | cons first as =>
        have hword : StartsWithWord (d :: u ++ c :: v) := by
          obtain ⟨part, parts, hparts', -, hscanned⟩ := scanned_sqlParts sql.toList
          rw [hparts'] at hsplit
          obtain ⟨rfl, rfl⟩ := cons.inj hsplit
          exact hscanned.startsWithWord _ (mem_append_right as mem_cons_self)
        have hd := hword.isAlpha
        have hfirst : SqlMark.first d = semicolon := by
          apply statements_eq_nil_iff.mp hnone
          rw [marks_cons, step_code_of_isAlpha hd]
          exact mem_cons_self
        exact ne_of_isAlpha hd (by decide) (SqlMark.first.inj hfirst)
    obtain ⟨init, a', hinit⟩ := (eq_nil_or_concat (sqlStatements (code.marks u))).resolve_left hsome
    rw [concat_eq_append] at hinit
    have haa : a' = a := by
      rw [statements_append hasEnds, hinit, ← append_assoc, getLast?_concat] at ha
      exact Option.some.inj ha
    subst haa
    have hpart : sqlStatements (tokensOf (u ++ c :: v)) = init ++ a' :: x :: xs := by
      rw [tokensOf_append hbefore, statements_append hends.of_append, hinit, hv, append_assoc]
      rfl
    have hmem : u ++ c :: v ∈ sqlParts sql.toList := by
      rw [hsplit]
      exact mem_append_right as mem_cons_self
    exact (h.not_two (hsplit ▸ hparts) hmem hpart hindex).elim

end Text

/-- **A migration is split faithfully iff it is splittable.** -/
theorem splitFaithfully_iff (sql : String) (h : MigrationText sql) :
    SplitFaithfully sql ↔ Splittable sql := by
  have hflatten := flatten_sqlParts sql.toList
  constructor
  · intro hfaithful
    have hparts := hfaithful.closing h
    obtain ⟨first, parts, hfirst, -, hscanned⟩ := scanned_sqlParts sql.toList
    have hwords : ∀ part ∈ (sqlParts sql.toList).tail, StartsWithWord part := by
      rw [hfirst]
      exact hscanned.startsWithWord
    refine ⟨?_, ?_, fun before behind a b => hfaithful.neighbours hparts⟩
    · intro before behind htext hmatch
      obtain ⟨as, bs, hsplit, has, hbs, rfl, rfl⟩ := exists_cut htext hmatch
      rw [hsplit] at hparts hwords
      exact hparts.atStatement has hbs hwords
    · rw [← hflatten]
      exact hparts.closes_flatten hwords
  · intro hsplittable
    have hparts := hsplittable.closing h
    have htokens := hparts.flatten
    rw [hflatten] at htokens
    refine ⟨?_, ?_, ?_, hsplittable.alone hparts⟩
    · rw [splitSqlStatements_eq, ← htokens.1]
      exact flatMap_statementOf hparts.closes id rfl
    · rw [splitSqlStatements_eq, ← htokens.2]
      exact flatMap_statementOf hparts.closes sqlStatements rfl
    · intro before behind hsplit _ hbehind
      rw [hsplit] at hparts
      rw [(hparts.of_append hbehind).1]
      rfl

/-- A statement and an index statement behind it. -/
theorem splittable_dropIndex : MigrationText "SELECT 1;\nDROP INDEX a;" ∧
    Splittable "SELECT 1;\nDROP INDEX a;" := by
  have htext : MigrationText "SELECT 1;\nDROP INDEX a;" :=
    ⟨by decide +kernel, .inr (by decide +kernel)⟩
  have hparts : sqlParts "SELECT 1;\nDROP INDEX a;".toList =
      ["SELECT 1;\n".toList, "DROP INDEX a;".toList] := by decide +kernel
  refine ⟨htext, (splitFaithfully_iff _ htext).mp ⟨by decide +kernel, by decide +kernel, ?_, ?_⟩⟩
  · intro before behind hsplit hbefore hbehind
    rw [hparts] at hsplit
    match before, hbefore with
    | [part], _ =>
      obtain ⟨rfl, -⟩ := cons.inj hsplit
      decide +kernel
    | _ :: _ :: before, _ =>
      obtain ⟨-, hsplit⟩ := cons.inj hsplit
      obtain ⟨-, hsplit⟩ := cons.inj hsplit
      exact absurd (append_eq_nil_iff.mp hsplit.symm).2 hbehind
  · decide +kernel

/-- **An index statement is executed together with the statement behind it.** -/
theorem not_splitFaithfully : MigrationText "DROP INDEX a; SELECT 1;" ∧
    ¬ SplitFaithfully "DROP INDEX a; SELECT 1;" := by
  refine ⟨⟨by decide +kernel, .inr (by decide +kernel)⟩, fun h => ?_⟩
  have halone : ¬ ∀ one ∈ splitSqlStatements "DROP INDEX a; SELECT 1;",
      ∀ statement ∈ sqlStatements (tokensOf one.toList), isIndexStatement statement = true →
        sqlStatements (tokensOf one.toList) = [statement] := by decide +kernel
  exact halone h.alone

end NextRole
