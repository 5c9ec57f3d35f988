import NextRole.ReadStatements

/-!
# The display limit

A statement without a limit is sent with one.  Whether the outermost query of a statement has a
limit of its own, and whether one at its end would be its own, is for the grammar of the server to
say; the source looks for the keyword in what the regular expressions leave, and appends to the
text.

## Main definitions

* `QueryGrammar` — where the clauses of the outermost query are.
* `EffectiveLimit`, `LimitBinds` — what the limit is for.
* `TakesLimit` — where the code is right.

## Main results

* `limitBinds_iff` — **when the display limit binds**, and `not_limitBinds`.
-/

namespace NextRole

/-! ### Queries -/

/-- The tokens of the query: without the semicolons and comments at the end. -/
def queryTokens (ts : List SqlToken) : List SqlToken :=
  (statementTokens ts).map SqlToken.uncommented

/-- What the grammar of the server says of the tokens of a query: whether the outermost query has a
limit of its own, and whether a limit at the end would be one.  A limit of its own is a keyword
outside of quotes with something after it. -/
structure QueryGrammar (wide : Char → Bool) where
  limited : List SqlToken → Bool
  takesLimit : List SqlToken → Bool
  keyword : ∀ q, limited q = true → ∃ a l t b, q = a ++ l.map SqlToken.char ++ t :: b ∧
    upperText l = "LIMIT" ∧ (∀ u ∈ a.getLast?, u.is (isWordChar wide) = false) ∧
      t.is (isWordChar wide) = false

/-- The tokens of a limit. -/
def limitTokens (n : ℕ) : List SqlToken := ("LIMIT " ++ toString n).toList.map .char

/-- A query with a limit that is its own. -/
def EffectiveLimit {wide : Char → Bool} (G : QueryGrammar wide) (q : List SqlToken) (n : ℕ)
    (sent : List SqlToken) : Prop :=
  G.takesLimit q = true ∧ ∃ gap, gap ≠ [] ∧ (∀ t ∈ gap, t.isTrivia = true) ∧
    queryTokens sent = q ++ gap ++ limitTokens n

/-- The display limit binds: a query without a limit of its own, if it is not of metadata, is sent
as the same query with the limit, and this is noted; a query with one is sent as it is. -/
def LimitBinds {wide : Char → Bool} (G : QueryGrammar wide) (sql : String) (n : ℕ) : Prop :=
  ∀ ts, lexSql .code (strip sql).toList = some ts →
    (G.limited (queryTokens ts) = false → upperText (firstWord ts) ∉ noLimitLeads →
      (sentBody wide sql (some n)).2 = true ∧
        ∃ sent, lexSql .code (sentBody wide sql (some n)).1.toList = some sent ∧
          EffectiveLimit G (queryTokens ts) n sent) ∧
    (G.limited (queryTokens ts) = true →
      ∃ sent, lexSql .code (sentBody wide sql (some n)).1.toList = some sent ∧
        queryTokens sent = queryTokens ts)

/-! ### Where the limit goes -/

/-- The tokens that are left of the text when semicolons and white space at the end are taken off
twice. -/
def bodyTokens (ts : List SqlToken) : List SqlToken :=
  (((ts.rdropWhile SqlToken.isSemicolon).rdropWhile (SqlToken.is isSpace)).rdropWhile
    SqlToken.isSemicolon).rdropWhile (SqlToken.is isSpace)

/-- The text of a statement without what is in comments and literals. -/
def blankText (ts : List SqlToken) : List Char := textOf ((bodyTokens ts).map SqlToken.blanked)

/-- A statement that takes a limit: the keyword is nowhere outside of comments and literals, no
comment comes after a semicolon, the first letters are not a keyword of metadata, and the limit at
the end is the outermost query's. -/
structure TakesLimit {wide : Char → Bool} (G : QueryGrammar wide) (ts : List SqlToken) : Prop where
  word : hasLimit wide false (blankText ts) = false
  semicolon : .char ';' ∉ bodyTokens ts
  lead : upperText (letterRun (blankText ts)) ∉ noLimitLeads
  takes : G.takesLimit (queryTokens ts) = true

/-! ### Texts without their ends -/

/-- A token without what is in a comment to the end of a line. -/
def SqlToken.bare : SqlToken → SqlToken
  | .lineComment _ => .lineComment []
  | t => t

theorem is_bare (p : Char → Bool) : SqlToken.is p ∘ SqlToken.bare = SqlToken.is p := by
  funext t
  cases t <;> rfl

theorem compat_bare (t : SqlToken) (b b' : List Char) (h : t.Compat (.lineComment b)) :
    t.Compat (.lineComment b') := by
  cases t with
  | char c => exact h
  | lineComment a => exact absurd h nofun
  | blockComment a => exact h
  | quoted q a => exact h

/-- What is taken off at the end of a text is taken off its tokens, and perhaps off what is in the
comment at the end. -/
theorem exists_trimmed {p : Char → Bool} (hquote : ∀ c, isQuote c = true → p c = false)
    (hline : p '-' = false) (hblock : p '/' = false) {ts : List SqlToken} (h : Tokenized ts) :
    ∃ us, textOf us = (textOf ts).rdropWhile p ∧ Tokenized us ∧
      us.map SqlToken.bare = (ts.rdropWhile (SqlToken.is p)).map SqlToken.bare := by
  induction ts using List.reverseRecOn with
  | nil => exact ⟨[], rfl, tokenized_nil, rfl⟩
  | append_singleton ts t ih =>
    -- a token that is not dropped keeps the text, unless it is a comment to the end of a line
    have hkeep : ∀ x c, t.text = x ++ [c] → p c = false → t.is p = false →
        ∃ us, textOf us = (textOf (ts ++ [t])).rdropWhile p ∧ Tokenized us ∧
          us.map SqlToken.bare =
            ((ts ++ [t]).rdropWhile (SqlToken.is p)).map SqlToken.bare := by
      intro x c htext hc ht
      refine ⟨ts ++ [t], ?_, h, ?_⟩
      · rw [textOf_append, textOf_cons, textOf_nil, List.append_nil, htext, ← List.append_assoc,
          List.rdropWhile_concat_neg _ _ _ (by rw [hc]; exact Bool.false_ne_true)]
      · rw [List.rdropWhile_concat_neg _ _ _ (by rw [ht]; exact Bool.false_ne_true)]
    cases t with
    | char c =>
      cases hc : p c with
      | false => exact hkeep [] c rfl hc hc
      | true =>
        obtain ⟨us, htext, htok, hbare⟩ := ih (h.isInfix (List.prefix_append _ _).isInfix)
        refine ⟨us, ?_, htok, ?_⟩
        · rw [htext, textOf_append, textOf_cons, textOf_nil, List.append_nil]
          exact (List.rdropWhile_concat_pos _ _ _ hc).symm
        · have hdrop : SqlToken.is p (.char c) = true := hc
          rw [hbare, List.rdropWhile_concat_pos _ _ _ hdrop]
    | lineComment b =>
      have hchain := List.isChain_append.mp h.chain
      refine ⟨ts ++ [.lineComment (b.rdropWhile p)], ?_, ⟨?_, ?_⟩, ?_⟩
      · rw [textOf_append, textOf_append, textOf_cons, textOf_cons, textOf_nil, List.append_nil,
          List.append_nil]
        have hstart := rdropWhile_append_cons hline (textOf ts) ('-' :: b)
        have hnext := rdropWhile_append_cons hline [] b
        rw [List.nil_append, List.nil_append] at hnext
        rw [hnext] at hstart
        exact hstart.symm
      · refine List.forall_mem_append.mpr ⟨fun u hu => h.wf u (List.mem_append_left _ hu), ?_⟩
        intro u hu
        obtain rfl := List.mem_singleton.mp hu
        exact fun hmem => h.wf _ (List.mem_append_right _ (List.mem_singleton_self _))
          ((List.rdropWhile_prefix p b).subset hmem)
      · refine List.isChain_append.mpr ⟨hchain.1, .singleton _, fun u hu v hv => ?_⟩
        obtain rfl := Option.some.inj hv
        exact compat_bare u b _ (hchain.2.2 u hu _ rfl)
      · rw [List.rdropWhile_concat_neg _ _ _ Bool.false_ne_true, List.map_append, List.map_append]
        rfl
    | blockComment b =>
      exact hkeep ('/' :: '*' :: (b ++ ['*'])) '/' (by simp [SqlToken.text]) hblock rfl
    | quoted q b =>
      have hq := h.wf _ (List.mem_append_right _ (List.mem_singleton_self _))
      exact hkeep (q :: b) q rfl (hquote q hq.1) rfl

theorem isSemicolon_eq : SqlToken.isSemicolon = SqlToken.is fun c => c = ';' := by
  funext t
  cases t with
  | char c => simp [SqlToken.is, SqlToken.isSemicolon]
  | lineComment b => rfl
  | blockComment b => rfl
  | quoted q b => rfl

theorem rdropWhile_bare {p : Char → Bool} {us ts : List SqlToken}
    (h : us.map SqlToken.bare = ts.map SqlToken.bare) :
    (us.rdropWhile (SqlToken.is p)).map SqlToken.bare =
      (ts.rdropWhile (SqlToken.is p)).map SqlToken.bare := by
  have hmap := fun l : List SqlToken => List.rdropWhile_map (p := SqlToken.is p) SqlToken.bare l
  simp only [is_bare] at hmap
  rw [← hmap, ← hmap, h]

/-- One round: semicolons, and then white space. -/
theorem exists_round {ts : List SqlToken} (h : Tokenized ts) :
    ∃ us, textOf us = ((textOf ts).rdropWhile fun c => c = ';').rdropWhile isSpace ∧
      Tokenized us ∧ us.map SqlToken.bare =
        ((ts.rdropWhile SqlToken.isSemicolon).rdropWhile (SqlToken.is isSpace)).map
          SqlToken.bare := by
  have hspace : ∀ c, isQuote c = true → isSpace c = false := fun c => not_isSpace_of_isQuote
  have hsemi : ∀ c, isQuote c = true → decide (c = ';') = false :=
    fun c => not_semicolon_of_isQuote
  obtain ⟨us, htext, htok, hbare⟩ := exists_trimmed hsemi (by decide) (by decide) h
  obtain ⟨us', htext', htok', hbare'⟩ := exists_trimmed hspace (by decide) (by decide) htok
  refine ⟨us', by rw [htext', htext], htok', ?_⟩
  rw [hbare', isSemicolon_eq, rdropWhile_bare hbare]

theorem strip_statementBody (sql : String) : strip (statementBody sql) = statementBody sql := by
  apply String.toList_inj.mp
  have hbody : (statementBody sql).toList =
      ((strip sql).toList.rdropWhile fun c => c = ';').rdropWhile isSpace := by
    rw [statementBody, rstripSpace, String.toList_ofList, rstripChar_toList]
  rw [strip_toList, hbody, List.rdropWhile_idempotent, List.dropWhile_rdropWhile_comm,
    List.dropWhile_rdropWhile_comm, strip_toList, List.dropWhile_idempotent]

theorem statementBody_twice_toList (sql : String) :
    (statementBody (statementBody sql)).toList =
      ((((strip sql).toList.rdropWhile fun c => c = ';').rdropWhile isSpace).rdropWhile
        fun c => c = ';').rdropWhile isSpace := by
  have hbody : ∀ s, (statementBody s).toList =
      ((strip s).toList.rdropWhile fun c => c = ';').rdropWhile isSpace := by
    intro s
    rw [statementBody, rstripSpace, String.toList_ofList, rstripChar_toList]
  rw [hbody, strip_statementBody, hbody]

/-- The tokens of the text that is sent without a limit. -/
theorem exists_body {sql : String} {ts : List SqlToken}
    (hts : lexSql .code (strip sql).toList = some ts) :
    ∃ us, (statementBody (statementBody sql)).toList = textOf us ∧ Tokenized us ∧
      us.map SqlToken.bare = (bodyTokens ts).map SqlToken.bare := by
  obtain ⟨htext, htok⟩ := tokenized_of_lexSql hts
  obtain ⟨us, hus, husTok, husBare⟩ := exists_round htok
  obtain ⟨vs, hvs, hvsTok, hvsBare⟩ := exists_round husTok
  refine ⟨vs, ?_, hvsTok, ?_⟩
  · rw [statementBody_twice_toList, htext, hvs, hus]
  · rw [hvsBare, bodyTokens, isSemicolon_eq]
    rw [isSemicolon_eq] at husBare
    exact rdropWhile_bare (rdropWhile_bare husBare)

/-! ### What the tokens of the text have in common -/

theorem lineBlanked_bare (t : SqlToken) : t.bare.lineBlanked = t.lineBlanked := by
  cases t <;> rfl

theorem blanked_bare (t : SqlToken) : t.bare.blanked = t.blanked := by
  cases t <;> rfl

theorem uncommented_bare (t : SqlToken) : t.bare.uncommented = t.uncommented := by
  cases t <;> rfl

theorem bare_eq_semicolon {t : SqlToken} : t.bare = .char ';' ↔ t = .char ';' := by
  cases t <;> simp [SqlToken.bare]

theorem bodyTokens_isPrefix (ts : List SqlToken) : bodyTokens ts <+: ts :=
  (List.rdropWhile_prefix _ _).trans ((List.rdropWhile_prefix _ _).trans
    ((List.rdropWhile_prefix _ _).trans (List.rdropWhile_prefix _ _)))

theorem end_of_isSpace (t : SqlToken) (h : t.is isSpace = true) :
    (t.isTrivia || t.isSemicolon) = true := by
  cases t with
  | char c => exact Bool.or_eq_true_iff.mpr (.inl h)
  | lineComment b => rfl
  | blockComment b => rfl
  | quoted q b => cases h

theorem statementTokens_bodyTokens (ts : List SqlToken) :
    statementTokens (bodyTokens ts) = statementTokens ts := by
  rw [statementTokens, bodyTokens, List.rdropWhile_rdropWhile_of_imp end_of_isSpace,
    List.rdropWhile_rdropWhile_of_imp end_of_isSemicolon,
    List.rdropWhile_rdropWhile_of_imp end_of_isSpace,
    List.rdropWhile_rdropWhile_of_imp end_of_isSemicolon, statementTokens]

theorem end_bare :
    (fun t : SqlToken => t.isTrivia || t.isSemicolon) ∘ SqlToken.bare =
      fun t : SqlToken => t.isTrivia || t.isSemicolon := by
  funext t
  cases t <;> rfl

theorem queryTokens_of_bare {us ts : List SqlToken}
    (h : us.map SqlToken.bare = ts.map SqlToken.bare) : queryTokens us = queryTokens ts := by
  have hmap := fun l : List SqlToken =>
    List.rdropWhile_map (p := fun t : SqlToken => t.isTrivia || t.isSemicolon) SqlToken.bare l
  have hquery : ∀ l : List SqlToken, queryTokens l =
      ((l.map SqlToken.bare).rdropWhile fun t => t.isTrivia || t.isSemicolon).map
        SqlToken.uncommented := by
    intro l
    rw [hmap, end_bare, List.map_map, queryTokens, statementTokens]
    exact List.map_congr_left fun t _ => (uncommented_bare t).symm
  rw [hquery, hquery, h]

theorem plainTokens_bare {ts : List SqlToken} :
    PlainTokens (ts.map SqlToken.bare) ↔ PlainTokens ts := by
  induction ts with
  | nil => rfl
  | cons t ts ih =>
    have hline : (ts.map SqlToken.bare).map SqlToken.lineBlanked =
        ts.map SqlToken.lineBlanked := by
      rw [List.map_map]
      exact List.map_congr_left fun u _ => lineBlanked_bare u
    have hcomments : (ts.map SqlToken.bare).map SqlToken.uncommented =
        ts.map SqlToken.uncommented := by
      rw [List.map_map]
      exact List.map_congr_left fun u _ => uncommented_bare u
    refine and_congr ?_ ih
    cases t with
    | char c => rfl
    | lineComment b => rfl
    | blockComment b => rfl
    | quoted q b =>
      have hbare : (SqlToken.quoted q b).bare = .quoted q b := rfl
      rw [hbare, SqlToken.PlainBefore, SqlToken.PlainBefore, hline, hcomments]

theorem PlainTokens.of_bare {us ts : List SqlToken}
    (h : us.map SqlToken.bare = ts.map SqlToken.bare) (hplain : PlainTokens ts) :
    PlainTokens us := by
  rwa [← plainTokens_bare, h, plainTokens_bare]

theorem semicolon_mem_of_bare {us ts : List SqlToken}
    (h : us.map SqlToken.bare = ts.map SqlToken.bare) : .char ';' ∈ us ↔ .char ';' ∈ ts := by
  have hmem : ∀ l : List SqlToken, .char ';' ∈ l ↔ .char ';' ∈ l.map SqlToken.bare := by
    intro l
    rw [List.mem_map]
    constructor
    · intro hl
      exact ⟨_, hl, rfl⟩
    · rintro ⟨t, ht, heq⟩
      rwa [bare_eq_semicolon.mp heq] at ht
  rw [hmem us, hmem ts, h]

theorem map_blanked_of_bare {us ts : List SqlToken}
    (h : us.map SqlToken.bare = ts.map SqlToken.bare) :
    us.map SqlToken.blanked = ts.map SqlToken.blanked := by
  have hmap : ∀ l : List SqlToken,
      l.map SqlToken.blanked = (l.map SqlToken.bare).map SqlToken.blanked := by
    intro l
    rw [List.map_map]
    exact List.map_congr_left fun t _ => (blanked_bare t).symm
  rw [hmap us, hmap ts, h]

/-! ### The text that is sent -/

/-- A statement as it is sent. -/
theorem sentBody_eq {sql : String} {ts us : List SqlToken} (wide : Char → Bool) (n : ℕ)
    (htext : (statementBody (statementBody sql)).toList = textOf us) (htok : Tokenized us)
    (hbare : us.map SqlToken.bare = (bodyTokens ts).map SqlToken.bare)
    (hplain : PlainTokens ts) :
    sentBody wide sql (some n) =
      if upperText (letterRun (blankText ts)) ∈ noLimitLeads ∨
          hasLimit wide false (blankText ts) = true then
        (statementBody (statementBody sql), false)
      else (statementBody (statementBody sql) ++ "\nLIMIT " ++ toString n, true) := by
  have hplain' : PlainTokens us :=
    .of_bare hbare (hplain.isInfix (bodyTokens_isPrefix ts).isInfix)
  have hnoise : stripNoise (statementBody (statementBody sql)).toList = blankText ts := by
    rw [htext, stripNoise_textOf htok hplain', map_blanked_of_bare hbare, blankText]
  rw [sentBody, ensureLimit, leadingKeyword_eq, hnoise]
  by_cases hlead : upperText (letterRun (blankText ts)) ∈ noLimitLeads
  · rw [if_pos hlead, if_pos (.inl hlead)]
  · by_cases hword : hasLimit wide false (blankText ts) = true
    · rw [if_neg hlead, if_pos hword, if_pos (.inr hword)]
    · rw [if_neg hlead, if_neg hword, if_neg (not_or.mpr ⟨hlead, hword⟩)]

theorem tokenized_chars {l : List Char}
    (h : ∀ c ∈ l, isQuote c = false ∧ c ≠ '-' ∧ c ≠ '/') : Tokenized (l.map SqlToken.char) := by
  induction l with
  | nil => exact tokenized_nil
  | cons c l ih =>
    obtain ⟨⟨hquote, hline, hblock⟩, hl⟩ := List.forall_mem_cons.mp h
    exact (ih hl).cons hquote fun u _ => ⟨fun hu => hline hu.1, fun hu => hblock hu.1⟩

theorem compat_newline {t : SqlToken} (h : t.WF) : t.Compat (.char '\n') := by
  cases t with
  | char c => exact ⟨fun hu => absurd hu.2 (by decide), fun hu => absurd hu.2 (by decide)⟩
  | lineComment b => rfl
  | blockComment b => trivial
  | quoted q b =>
    intro hu
    obtain rfl : '\n' = q := Option.some.inj hu
    exact absurd h.1 (by decide)

theorem tokenized_limit {us : List SqlToken} (h : Tokenized us) (n : ℕ) :
    Tokenized (us ++ .char '\n' :: limitTokens n) := by
  have hchars : Tokenized (('\n' :: ("LIMIT " ++ toString n).toList).map SqlToken.char) := by
    refine tokenized_chars fun c hc => ?_
    have hnumber : ∀ d : Char, d.isDigit = false → d ∈ (toString n).toList → False :=
      fun d hd => Path.notMem_toString hd n
    rw [String.toList_append, ← List.cons_append, List.mem_append] at hc
    rcases hc with hc | hc
    · have hall : ('\n' :: "LIMIT ".toList).all (fun d =>
          !isQuote d && d ≠ '-' && d ≠ '/') = true := by decide
      have hd := List.all_eq_true.mp hall c hc
      rwa [Bool.and_eq_true, Bool.and_eq_true, Bool.not_eq_true', decide_eq_true_eq,
        decide_eq_true_eq, and_assoc] at hd
    · have hne : ∀ d : Char, d.isDigit = false → c ≠ d := by
        rintro d hd rfl
        exact hnumber c hd hc
      refine ⟨?_, hne '-' (by decide), hne '/' (by decide)⟩
      rw [isQuote, decide_eq_false (hne '\'' (by decide)), decide_eq_false (hne '"' (by decide)),
        decide_eq_false (hne (Char.ofNat 0x60) (by decide))]
      rfl
  refine ⟨List.forall_mem_append.mpr ⟨h.wf, hchars.wf⟩,
    List.isChain_append.mpr ⟨h.chain, hchars.chain, fun t ht u hu => ?_⟩⟩
  obtain rfl := Option.some.inj hu
  exact compat_newline (h.wf t (List.mem_of_getLast? ht))

theorem textOf_map_char (l : List Char) : textOf (l.map SqlToken.char) = l := by
  induction l with
  | nil => rfl
  | cons c l ih =>
    rw [List.map_cons, textOf_cons, ih]
    rfl

theorem lexSql_limit {body : String} {us : List SqlToken} (htext : body.toList = textOf us)
    (htok : Tokenized us) (n : ℕ) :
    lexSql .code (body ++ "\nLIMIT " ++ toString n).toList =
      some (us ++ .char '\n' :: limitTokens n) := by
  have hlimit : textOf (limitTokens n) = ("LIMIT " ++ toString n).toList := textOf_map_char _
  have hsent : (body ++ "\nLIMIT " ++ toString n).toList =
      textOf (us ++ .char '\n' :: limitTokens n) := by
    rw [textOf_append, textOf_cons, hlimit, String.toList_append, String.toList_append, htext,
      List.append_assoc, String.toList_append]
    rfl
  rw [hsent, lexSql_textOf (tokenized_limit htok n)]

/-- Nothing of the limit goes. -/
theorem queryTokens_limit (us : List SqlToken) (n : ℕ) :
    queryTokens (us ++ .char '\n' :: limitTokens n) =
      us.map SqlToken.uncommented ++ .char '\n' :: limitTokens n := by
  have hne : (toString n).toList ≠ [] := by
    rw [Nat.toString_eq_repr, Nat.toList_repr]
    exact Nat.toDigits_ne_nil
  obtain ⟨x, c, hx⟩ : ∃ x c, (toString n).toList = x ++ [c] :=
    ⟨_, _, (List.dropLast_append_getLast hne).symm⟩
  have hc : ∀ d : Char, d.isDigit = false → c ≠ d := by
    rintro d hd rfl
    refine Path.notMem_toString hd n ?_
    rw [hx]
    exact List.mem_append_right _ (List.mem_singleton_self _)
  have hdigit : c.isDigit = true := by
    by_contra hd
    exact hc c (Bool.not_eq_true _ ▸ hd) rfl
  have hspace : isSpace c = false := by
    rw [Bool.eq_false_iff]
    intro hs
    simp only [isSpace, Bool.or_eq_true, decide_eq_true_eq, List.mem_cons, List.not_mem_nil,
      or_false, Bool.and_eq_true] at hs
    have hrange : 48 ≤ c.toNat ∧ c.toNat ≤ 57 := Char.isDigit_iff_toNat.mp hdigit
    omega
  have hsplit : us ++ .char '\n' :: limitTokens n =
      (us ++ .char '\n' :: ("LIMIT ".toList ++ x).map SqlToken.char) ++ [.char c] := by
    rw [limitTokens, String.toList_append, hx]
    simp
  have hend : ¬ (SqlToken.isTrivia (.char c) || SqlToken.isSemicolon (.char c)) = true := by
    have hsemi : SqlToken.isSemicolon (.char c) = false := by
      rw [isSemicolon_eq]
      exact decide_eq_false (hc ';' (by decide))
    rw [hsemi, Bool.or_false]
    exact fun hs => absurd (hspace.symm.trans hs) Bool.false_ne_true
  have hchars : ∀ l : List Char, (l.map SqlToken.char).map SqlToken.uncommented =
      l.map SqlToken.char := by
    intro l
    rw [List.map_map]
    rfl
  have hkeep : statementTokens (us ++ .char '\n' :: limitTokens n) =
      us ++ .char '\n' :: limitTokens n := by
    rw [statementTokens, hsplit]
    exact List.rdropWhile_concat_neg _ _ _ hend
  rw [queryTokens, hkeep, List.map_append, List.map_cons, limitTokens, hchars]
  rfl

/-! ### The keyword in the text -/

theorem eq_or_of_toUpper {c u : Char} (h : c.toUpper = u) : c = u ∨ c.toNat = u.toNat + 32 := by
  by_cases hlow : 97 ≤ c.toNat ∧ c.toNat ≤ 122
  · right
    have hupper : c.toUpper.toNat = c.toNat - 32 := by
      have hval : 'a'.val ≤ c.val ∧ c.val ≤ 'z'.val := hlow
      rw [Char.toUpper, dif_pos hval]
      change (c.val + (65 - 97)).toNat = c.val.toNat - 32
      rw [UInt32.toNat_add]
      change (c.val.toNat + 4294967264) % 4294967296 = c.val.toNat - 32
      have hc : 97 ≤ c.val.toNat ∧ c.val.toNat ≤ 122 := hlow
      omega
    rw [← h, hupper]
    omega
  · left
    have hsame : c.toUpper = c := dif_neg hlow
    rw [← hsame, h]

/-- A keyword is found where it starts. -/
theorem startsLimit_append {wide : Char → Bool} {l y : List Char} (hl : upperText l = "LIMIT")
    (hy : ∀ c ∈ y.head?, isWordChar wide c = false) : startsLimit wide (l ++ y) = true := by
  have hchars : l.map Char.toUpper = ['L', 'I', 'M', 'I', 'T'] := by
    have hlist := congrArg String.toList hl
    rw [upperText, String.toList_ofList] at hlist
    exact hlist
  have hletter : ∀ {c u v : Char}, c.toUpper = u → u.toNat + 32 = v.toNat → c = v ∨ c = u := by
    intro c u v hc hv
    rcases eq_or_of_toUpper hc with heq | heq
    · exact .inr heq
    · exact .inl (Char.toNat_inj.mp (heq.trans hv))
  obtain ⟨a, l, rfl, ha, hchars⟩ := List.map_eq_cons_iff.mp hchars
  obtain ⟨b, l, rfl, hb, hchars⟩ := List.map_eq_cons_iff.mp hchars
  obtain ⟨c, l, rfl, hc, hchars⟩ := List.map_eq_cons_iff.mp hchars
  obtain ⟨d, l, rfl, hd, hchars⟩ := List.map_eq_cons_iff.mp hchars
  obtain ⟨e, l, rfl, he, hchars⟩ := List.map_eq_cons_iff.mp hchars
  obtain rfl := List.map_eq_nil_iff.mp hchars
  have hhead : y.head?.any (isWordChar wide) = false := by
    cases y with
    | nil => rfl
    | cons z y => exact hy z rfl
  have hfirst := hletter ha (v := 'l') rfl
  have hsecond := hletter hb (v := 'i') rfl
  have hthird := hletter hc (v := 'm') rfl
  have hfourth := hletter hd (v := 'i') rfl
  have hfifth := hletter he (v := 't') rfl
  simp only [List.cons_append, List.nil_append, startsLimit, matchesI, hhead, Bool.and_eq_true,
    Bool.or_eq_true, decide_eq_true_eq, Bool.not_false, and_true]
  exact ⟨⟨⟨⟨hfirst, .inl (.inl hsecond)⟩, hthird⟩, .inl (.inl hfourth)⟩, hfifth⟩

theorem hasLimit_append {wide : Char → Bool} {x y : List Char} {afterWord : Bool}
    (hx : ∀ c ∈ x.getLast?, isWordChar wide c = false) (hafter : x = [] → afterWord = false)
    (h : startsLimit wide y = true) : hasLimit wide afterWord (x ++ y) = true := by
  induction x generalizing afterWord with
  | nil =>
    cases y with
    | nil => cases h
    | cons c y => rw [List.nil_append, hasLimit, hafter rfl, h]; rfl
  | cons c x ih =>
    have hrest : hasLimit wide (isWordChar wide c) (x ++ y) = true := by
      refine ih (fun d hd => hx d ?_) fun hnil => hx c ?_
      · cases x with
        | nil => cases hd
        | cons e x => rwa [List.getLast?_cons_cons]
      · rw [hnil]
        rfl
    rw [List.cons_append, hasLimit, hrest, Bool.or_true]

/-- A token that is not a character of a word neither starts nor ends with one. -/
theorem not_wordChar_of_token {wide : Char → Bool} {t : SqlToken} (h : t.WF)
    (ht : t.is (isWordChar wide) = false) :
    (∀ c ∈ t.blanked.text.head?, isWordChar wide c = false) ∧
      ∀ c ∈ t.blanked.text.getLast?, isWordChar wide c = false := by
  have hsmall : ∀ c : Char, c.toNat < 128 → (isAsciiAlnum c || decide (c = '_')) = false →
      isWordChar wide c = false := by
    intro c hc hword
    rw [isWordChar, if_pos hc, hword]
  have hblank : isWordChar wide ' ' = false := hsmall ' ' (by decide) (by decide)
  have hone : ∀ c : Char, isWordChar wide c = false →
      ∀ d ∈ [c].head?, isWordChar wide d = false := by
    intro c hc d hd
    rwa [← Option.some.inj hd]
  cases t with
  | char c => exact ⟨hone c ht, hone c ht⟩
  | lineComment b => exact ⟨hone ' ' hblank, hone ' ' hblank⟩
  | blockComment b => exact ⟨hone ' ' hblank, hone ' ' hblank⟩
  | quoted q b =>
    have hq : isWordChar wide q = false :=
      not_of_isQuote (hsmall _ (by decide) (by decide)) (hsmall _ (by decide) (by decide))
        (hsmall _ (by decide) (by decide)) h.1
    obtain ⟨b', hb'⟩ : ∃ b', (SqlToken.quoted q b).blanked = .quoted q b' := by
      rw [SqlToken.blanked]
      split
      · exact ⟨_, rfl⟩
      · exact ⟨_, rfl⟩
    rw [hb', SqlToken.text, getLast?_quoted]
    exact ⟨hone q hq, hone q hq⟩

theorem blanked_uncommented (t : SqlToken) : t.uncommented.blanked = t.blanked := by
  cases t <;> rfl

theorem wf_uncommented {t : SqlToken} (h : t.WF) : t.uncommented.WF := by
  cases t with
  | char c => exact h
  | lineComment b => exact wf_char_space
  | blockComment b => exact wf_char_space
  | quoted q b => exact h

theorem exists_blankText (ts : List SqlToken) :
    ∃ rest, blankText ts = textOf ((queryTokens ts).map SqlToken.blanked) ++ rest := by
  obtain ⟨us, hus⟩ := List.rdropWhile_prefix (fun t => t.isTrivia || t.isSemicolon) (bodyTokens ts)
  rw [← statementTokens, statementTokens_bodyTokens] at hus
  refine ⟨textOf (us.map SqlToken.blanked), ?_⟩
  rw [blankText, ← hus, List.map_append, textOf_append, queryTokens, List.map_map]
  congr 2
  exact List.map_congr_left fun t _ => (blanked_uncommented t).symm

/-- A limit of its own is found. -/
theorem hasLimit_of_limited {wide : Char → Bool} (G : QueryGrammar wide) {ts : List SqlToken}
    (h : Tokenized ts) (hlim : G.limited (queryTokens ts) = true) :
    hasLimit wide false (blankText ts) = true := by
  obtain ⟨a, l, t, b, hq, hl, ha, ht⟩ := G.keyword _ hlim
  have hwf : ∀ u ∈ queryTokens ts, u.WF := by
    intro u hu
    obtain ⟨v, hv, rfl⟩ := List.mem_map.mp hu
    exact wf_uncommented (h.wf v ((List.rdropWhile_prefix _ _).subset hv))
  rw [hq] at hwf
  obtain ⟨rest, hrest⟩ := exists_blankText ts
  have hchars : (l.map SqlToken.char).map SqlToken.blanked = l.map SqlToken.char := by
    rw [List.map_map]
    rfl
  rw [hrest, hq, List.map_append, List.map_append, List.map_cons, textOf_append, textOf_append,
    hchars, textOf_map_char, List.append_assoc, List.append_assoc]
  apply hasLimit_append
  · intro c hc
    cases hlast : a.getLast? with
    | none =>
      rw [List.getLast?_eq_none_iff.mp hlast] at hc
      cases hc
    | some u =>
      obtain ⟨a', rfl⟩ := List.getLast?_eq_some_iff.mp hlast
      have hu := not_wordChar_of_token (hwf u (by simp)) (ha u hlast)
      rw [List.map_append, textOf_append, List.map_singleton, textOf_cons, textOf_nil,
        List.append_nil, List.getLast?_append_of_ne_nil _ (SqlToken.text_ne_nil _)] at hc
      exact hu.2 c hc
  · intro _
    rfl
  · apply startsLimit_append hl
    intro c hc
    have ht' := not_wordChar_of_token (hwf t (by simp)) ht
    rw [textOf_cons, List.append_assoc,
      List.head?_append_of_ne_nil _ (SqlToken.text_ne_nil _)] at hc
    exact ht'.1 c hc

/-! ### When the limit binds -/

theorem semicolon_of_uncommented {t : SqlToken} (h : t.uncommented = .char ';') :
    t = .char ';' := by
  cases t with
  | char c => exact h
  | lineComment b => exact absurd (SqlToken.char.inj h) (by decide)
  | blockComment b => exact absurd (SqlToken.char.inj h) (by decide)
  | quoted q b => exact h

theorem isTrivia_uncommented {t : SqlToken} (h : t.isTrivia = true) :
    t.uncommented.isTrivia = true := by
  cases t with
  | char c => exact h
  | lineComment b => rfl
  | blockComment b => rfl
  | quoted q b => exact h

/-- What comes after the query is white space and comments if it has no semicolons. -/
theorem exists_gap {us : List SqlToken} (h : .char ';' ∉ us) :
    ∃ gap, us.map SqlToken.uncommented = queryTokens us ++ gap ∧
      ∀ t ∈ gap, t.isTrivia = true := by
  refine ⟨(us.rtakeWhile fun t => t.isTrivia || t.isSemicolon).map SqlToken.uncommented, ?_, ?_⟩
  · rw [queryTokens, ← List.map_append, statementTokens, List.rdropWhile_append_rtakeWhile]
  · intro t ht
    obtain ⟨u, hu, rfl⟩ := List.mem_map.mp ht
    have hend := List.mem_rtakeWhile_imp hu
    rw [Bool.or_eq_true] at hend
    refine isTrivia_uncommented (hend.resolve_right fun hs => h ?_)
    rw [← of_decide_eq_true hs]
    exact (List.rtakeWhile_suffix _ _).subset hu

/-- **When the display limit binds**, for accepted statements whose tokens the regular expressions
find: the keyword is found, and the text ends, where they should. -/
theorem limitBinds_iff {wide : Char → Bool} (G : QueryGrammar wide) {sql : String}
    {ts : List SqlToken} (hts : lexSql .code (strip sql).toList = some ts)
    (hplain : PlainTokens ts) (haccept : classifyStatement sql = none) (n : ℕ) :
    LimitBinds G sql n ↔
      (G.limited (queryTokens ts) = false → upperText (firstWord ts) ∉ noLimitLeads →
        TakesLimit G ts) := by
  obtain ⟨-, htok⟩ := tokenized_of_lexSql hts
  obtain ⟨us, htext, husTok, hbare⟩ := exists_body hts
  have hsent := sentBody_eq wide n htext husTok hbare hplain
  have hbody : lexSql .code (statementBody (statementBody sql)).toList = some us := by
    rw [htext, lexSql_textOf husTok]
  have hquery : queryTokens us = queryTokens ts := by
    rw [queryTokens_of_bare hbare, queryTokens, statementTokens_bodyTokens, queryTokens]
  have hone : .char ';' ∉ statementTokens ts := fun hmem =>
    ((classifyStatement_eq_none_iff hts hplain).mp haccept).1 (statementTokens_subset ts hmem)
  constructor
  · intro h hlim hmeta
    obtain ⟨hinjected, sent, hsentTok, htakes, gap, -, hgap, heq⟩ := (h ts hts).1 hlim hmeta
    by_cases hkeep : upperText (letterRun (blankText ts)) ∈ noLimitLeads ∨
        hasLimit wide false (blankText ts) = true
    · rw [hsent, if_pos hkeep] at hinjected
      cases hinjected
    · rw [hsent, if_neg hkeep, lexSql_limit htext husTok] at hsentTok
      obtain rfl := Option.some.inj hsentTok
      obtain ⟨hlead, hword⟩ := not_or.mp hkeep
      refine ⟨Bool.not_eq_true _ ▸ hword, fun hmem => ?_, hlead, htakes⟩
      rw [queryTokens_limit, List.append_cons] at heq
      have hfront := List.append_cancel_right heq
      have hsemi : .char ';' ∈ us.map SqlToken.uncommented :=
        List.mem_map_of_mem ((semicolon_mem_of_bare hbare).mpr hmem)
      have hmem' : .char ';' ∈ queryTokens ts ++ gap := by
        rw [← hfront]
        exact List.mem_append_left _ hsemi
      rcases List.mem_append.mp hmem' with hmem' | hmem'
      · obtain ⟨t, ht, heq'⟩ := List.mem_map.mp hmem'
        exact hone (semicolon_of_uncommented heq' ▸ ht)
      · exact absurd (hgap _ hmem') (by decide)
  · intro h ts' hts'
    obtain rfl : ts' = ts := Option.some.inj (hts'.symm.trans hts)
    constructor
    · intro hlim hmeta
      obtain ⟨hword, hsemi, hlead, htakes⟩ := h hlim hmeta
      have hkeep : ¬ (upperText (letterRun (blankText ts')) ∈ noLimitLeads ∨
          hasLimit wide false (blankText ts') = true) := by
        rw [hword]
        exact not_or.mpr ⟨hlead, Bool.false_ne_true⟩
      obtain ⟨gap, hgap, htrivia⟩ :=
        exists_gap (mt (semicolon_mem_of_bare hbare).mp hsemi)
      rw [hsent, if_neg hkeep]
      refine ⟨rfl, _, lexSql_limit htext husTok n, htakes, gap ++ [.char '\n'], by simp, ?_, ?_⟩
      · intro t ht
        rcases List.mem_append.mp ht with ht | ht
        · exact htrivia t ht
        · rw [List.mem_singleton.mp ht]
          rfl
      · rw [queryTokens_limit, hgap, hquery]
        simp
    · intro hlim
      have hkeep : upperText (letterRun (blankText ts')) ∈ noLimitLeads ∨
          hasLimit wide false (blankText ts') = true := .inr (hasLimit_of_limited G htok hlim)
      rw [hsent, if_pos hkeep]
      exact ⟨us, hbody, hquery⟩

/-! ### A grammar of clauses outside of parentheses -/

/-- A word at the start, with something after it. -/
def startsWord (wide : Char → Bool) (w : String) (ts : List SqlToken) : Bool :=
  upperText (textOf (ts.takeWhile (SqlToken.is (isWordChar wide)))) = w &&
    !(ts.dropWhile (SqlToken.is (isWordChar wide))).isEmpty

/-- A word outside of parentheses, after a character of a word or not. -/
def outerWord (wide : Char → Bool) (w : String) : ℕ → Bool → List SqlToken → Bool
  | _, _, [] => false
  | depth, afterWord, t :: ts =>
    (depth = 0 && !afterWord && startsWord wide w (t :: ts)) ||
      outerWord wide w (if t = .char '(' then depth + 1 else if t = .char ')' then depth - 1
        else depth) (t.is (isWordChar wide)) ts

theorem exists_of_outerWord {wide : Char → Bool} {w : String} {depth : ℕ} {afterWord : Bool}
    {q : List SqlToken} (h : outerWord wide w depth afterWord q = true) :
    ∃ a l t b, q = a ++ l.map SqlToken.char ++ t :: b ∧ upperText l = w ∧
      (∀ u ∈ a.getLast?, u.is (isWordChar wide) = false) ∧ (a = [] → afterWord = false) ∧
        t.is (isWordChar wide) = false := by
  induction q generalizing depth afterWord with
  | nil => cases h
  | cons t ts ih =>
    rw [outerWord, Bool.or_eq_true, Bool.and_eq_true, Bool.and_eq_true, Bool.not_eq_true'] at h
    rcases h with ⟨⟨-, hafter⟩, hstart⟩ | hrest
    · rw [startsWord, Bool.and_eq_true, decide_eq_true_eq, Bool.not_eq_true'] at hstart
      obtain ⟨hw, hne⟩ := hstart
      obtain ⟨u, b, hb⟩ := List.exists_cons_of_ne_nil (List.isEmpty_eq_false_iff.mp hne)
      have hchars : ∀ l : List SqlToken, (∀ v ∈ l, v.is (isWordChar wide) = true) →
          (textOf l).map SqlToken.char = l := by
        intro l hl
        induction l with
        | nil => rfl
        | cons v l ih =>
          obtain ⟨hv, hrest⟩ := List.forall_mem_cons.mp hl
          obtain ⟨c, rfl, -⟩ := SqlToken.is_iff.mp hv
          rw [textOf_cons, List.map_append, ih hrest]
          rfl
      have hnot := List.head?_dropWhile_not (SqlToken.is (isWordChar wide)) (t :: ts)
      rw [hb] at hnot
      refine ⟨[], _, u, b, ?_, hw, nofun, fun _ => hafter, by simpa using hnot⟩
      rw [hchars _ fun v hv => List.mem_takeWhile_imp hv, List.nil_append, ← hb,
        List.takeWhile_append_dropWhile]
    · obtain ⟨a, l, u, b, rfl, hw, ha, hafter, hu⟩ := ih hrest
      refine ⟨t :: a, l, u, b, rfl, hw, fun v hv => ?_, nofun, hu⟩
      cases a with
      | nil =>
        rw [← Option.some.inj hv]
        exact hafter rfl
      | cons v' a =>
        rw [List.getLast?_cons_cons] at hv
        exact ha v hv

/-- Clauses are named by keywords outside of parentheses; a limit at the end of a query is not its
own after one of the clauses that are listed, or after parentheses around the query. -/
def plainGrammar (wide : Char → Bool) : QueryGrammar wide where
  limited q := outerWord wide "LIMIT" 0 false q
  takesLimit q := q.head? ≠ some (.char '(') &&
    ["UNION", "EXCEPT", "INTERSECT", "OFFSET", "FETCH", "SETTINGS", "INTO", "FORMAT"].all fun w =>
      !outerWord wide w 0 false q
  keyword q h := by
    obtain ⟨a, l, t, b, hq, hw, ha, -, ht⟩ := exists_of_outerWord h
    exact ⟨a, l, t, b, hq, hw, ha, ht⟩

/-- A statement of which the limit binds. -/
theorem limitBinds_iff_plain :
    ∃ ts, lexSql .code (strip "SELECT run_id FROM fct_run;").toList = some ts ∧
      (LimitBinds (plainGrammar fun _ => false) "SELECT run_id FROM fct_run;" 200 ↔
        ((plainGrammar fun _ => false).limited (queryTokens ts) = false →
          upperText (firstWord ts) ∉ noLimitLeads →
            TakesLimit (plainGrammar fun _ => false) ts)) := by
  have hts : lexSql .code (strip "SELECT run_id FROM fct_run;").toList =
      some ("SELECT run_id FROM fct_run;".toList.map .char) := by decide +kernel
  exact ⟨_, hts, limitBinds_iff _ hts (by decide +kernel) (by decide +kernel) 200⟩

/-- The limit of a subquery is taken for one of the query. -/
theorem not_limitBinds : ¬ ∀ (wide : Char → Bool) (G : QueryGrammar wide) (sql : String) (n : ℕ),
    classifyStatement sql = none → LimitBinds G sql n := by
  intro h
  have hts : lexSql .code (strip "SELECT * FROM (SELECT 1 LIMIT 5)").toList =
      some ("SELECT * FROM (SELECT 1 LIMIT 5)".toList.map .char) := by decide +kernel
  have hbinds := h (fun _ => false) (plainGrammar _) "SELECT * FROM (SELECT 1 LIMIT 5)" 200
    (by decide +kernel) _ hts
  have hinjected := (hbinds.1 (by decide +kernel) (by decide +kernel)).1
  exact absurd hinjected (by decide +kernel)

end NextRole
