import NextRole.Agents.RunSql

/-!
# The rows of a table

A cell escapes its bars and has no line break, so that a line of a table is cut at the bars that no
backslash stands before, and gives the cells back.  The cut of a long value may leave a backslash
at its end, and what follows it is the mark of the cut.

## Main definitions

* `splitBars` — the parts of a line between its bars.
* `Guarded` — a text in which a backslash stands before every bar.
* `tableRow` — the line of several cells.

## Main results

* `splitBars_tableRow` — a line is cut into its cells.
* `rows_readBack` — **the rows of a rendered table are lines that are cut into their cells**.
-/

namespace NextRole

/-! ### Bars -/

/-- The parts of a line between the bars that no backslash stands before; `last` is what stands
before the text. -/
def splitBars (last : Option Char) : List Char → List (List Char)
  | [] => [[]]
  | c :: cs =>
    if c = '|' ∧ last ≠ some '\\' then [] :: splitBars (some c) cs
    else (splitBars (some c) cs).modifyHead fun part => c :: part

/-- A backslash stands before every bar. -/
inductive Guarded : Option Char → List Char → Prop
  | nil (last : Option Char) : Guarded last []
  | cons {last : Option Char} {c : Char} {part : List Char} (hbar : c = '|' → last = some '\\')
    (h : Guarded (some c) part) : Guarded last (c :: part)

theorem splitBars_part {last : Option Char} {part : List Char} (h : Guarded last part)
    (rest : List Char) :
    splitBars last (part ++ ' ' :: '|' :: rest) = (part ++ [' ']) :: splitBars (some '|') rest := by
  induction h with
  | nil last => simp [splitBars]
  | @cons last c part hbar _ ih =>
    have hc : ¬ (c = '|' ∧ last ≠ some '\\') := fun hfree => hfree.2 (hbar hfree.1)
    rw [List.cons_append, splitBars, if_neg hc, ih]
    rfl

theorem Guarded.take {last : Option Char} {part : List Char} (h : Guarded last part) (n : ℕ) :
    Guarded last (part.take n) := by
  induction h generalizing n with
  | nil last =>
    rw [List.take_nil]
    exact .nil last
  | cons hbar _ ih =>
    cases n with
    | zero => exact .nil _
    | succ n => exact .cons hbar (ih n)

theorem Guarded.concat {last : Option Char} {part : List Char} (h : Guarded last part) {c : Char}
    (hc : c ≠ '|') : Guarded last (part ++ [c]) := by
  induction h with
  | nil last => exact .cons (fun hbar => absurd hbar hc) (.nil _)
  | cons hbar _ ih => exact .cons hbar ih

/-! ### Cells -/

/-- **The bars of a value are guarded**, whatever stands before it. -/
theorem guarded_escaped (last : Option Char) (value : List Char) :
    Guarded last ((value.flatMap fun a => if a = '|' then ['\\', '|'] else [a]).flatMap
      fun a => if a = '\n' then [' '] else [a]) := by
  induction value generalizing last with
  | nil => exact .nil last
  | cons a value ih =>
    rw [List.flatMap_cons, List.flatMap_append]
    by_cases hbar : a = '|'
    · subst hbar
      exact .cons (fun h => absurd h (by decide)) (.cons (fun _ => rfl) (ih _))
    · rw [if_neg hbar, List.flatMap_singleton]
      split
      · exact .cons (fun h => absurd h (by decide)) (ih _)
      · exact .cons (fun h => absurd h hbar) (ih _)

theorem notMem_escaped (value : List Char) :
    '\n' ∉ value.flatMap fun a => if a = '\n' then [' '] else [a] := by
  intro hmem
  obtain ⟨a, -, ha⟩ := List.mem_flatMap.mp hmem
  split at ha
  · exact absurd (List.mem_singleton.mp ha) (by decide)
  · next hne => exact hne (List.mem_singleton.mp ha).symm

theorem tableCell_none (maxWidth : ℕ) : tableCell maxWidth none = "∅" := rfl

theorem tableCell_some {maxWidth : ℕ} {value text : String}
    (htext : text = replaceChar '\n' " " (replaceChar '|' "\\|" value)) :
    tableCell maxWidth (some value) = if text.length ≤ maxWidth then text
      else String.ofList (text.toList.take (maxWidth - 1)) ++ "…" := by
  rw [htext]
  rfl

/-- **What holds of every cell**: of the sign of a missing value, of an escaped text, and of what is
left of it before the mark of a cut. -/
theorem tableCell_rec {p : List Char → Prop} (maxWidth : ℕ) (value : Option String)
    (hmissing : p ['∅'])
    (hescaped : ∀ text : List Char,
      p ((text.flatMap fun a => if a = '|' then ['\\', '|'] else [a]).flatMap
        fun a => if a = '\n' then [' '] else [a]))
    (hcut : ∀ part n, p part → p (part.take n ++ ['…'])) : p (tableCell maxWidth value).toList := by
  cases value with
  | none =>
    have hnone : "∅".toList = ['∅'] := by simp
    rwa [tableCell_none, hnone]
  | some value =>
    have hvalue : p (replaceChar '\n' " " (replaceChar '|' "\\|" value)).toList := by
      have hbar : "\\|".toList = ['\\', '|'] := by simp
      have hblank : " ".toList = [' '] := by simp
      simp only [replaceChar, String.toList_ofList, hbar, hblank]
      exact hescaped value.toList
    rw [tableCell_some rfl]
    generalize replaceChar '\n' " " (replaceChar '|' "\\|" value) = text at hvalue ⊢
    split
    · exact hvalue
    · have hmark : "…".toList = ['…'] := by simp
      rw [String.toList_append, String.toList_ofList, hmark]
      exact hcut _ _ hvalue

theorem guarded_tableCell (last : Option Char) (maxWidth : ℕ) (value : Option String) :
    Guarded last (tableCell maxWidth value).toList := by
  apply tableCell_rec
  · exact guarded_escaped last ['∅']
  · exact guarded_escaped last
  · intro part n h
    exact (h.take n).concat (by decide)

theorem notMem_tableCell (maxWidth : ℕ) (value : Option String) :
    '\n' ∉ (tableCell maxWidth value).toList := by
  refine tableCell_rec (p := fun cell => '\n' ∉ cell) maxWidth value (by decide)
    (fun _ => notMem_escaped _) ?_
  intro part n h hmem
  rcases List.mem_append.mp hmem with hmem | hmem
  · exact h (List.mem_of_mem_take hmem)
  · exact absurd (List.mem_singleton.mp hmem) (by decide)

/-! ### Rows -/

/-- The line of several cells. -/
def tableRow (cells : List String) : String := "| " ++ " | ".intercalate cells ++ " |"

/-- A cell in its line, where blanks stand around it. -/
def padded (cell : String) : List Char := ' ' :: (cell.toList ++ [' '])

/-- Behind the bar before the first cell, each cell is cut off at the bar behind it. -/
theorem splitBars_cells {cell : String} {cells : List String}
    (h : ∀ cell' ∈ cell :: cells, ∀ last, Guarded last cell'.toList) :
    splitBars (some '|') (' ' :: ((" | ".intercalate (cell :: cells)).toList ++ [' ', '|'])) =
      (cell :: cells).map padded ++ [[]] := by
  induction cells generalizing cell with
  | nil =>
    have hcell : Guarded (some '|') (' ' :: cell.toList) :=
      .cons (fun hbar => absurd hbar (by decide)) (h cell List.mem_cons_self _)
    rw [String.intercalate_singleton, ← List.cons_append, splitBars_part hcell]
    rfl
  | cons next cells ih =>
    obtain ⟨hcell, hcells⟩ := List.forall_mem_cons.mp h
    have hguarded : Guarded (some '|') (' ' :: cell.toList) :=
      .cons (fun hbar => absurd hbar (by decide)) (hcell _)
    have hline : ' ' :: ((" | ".intercalate (cell :: next :: cells)).toList ++ [' ', '|']) =
        (' ' :: cell.toList) ++ ' ' :: '|' ::
          (' ' :: ((" | ".intercalate (next :: cells)).toList ++ [' ', '|'])) := by
      rw [String.intercalate_cons_cons, String.toList_append, String.toList_append]
      simp
    rw [hline, splitBars_part hguarded, ih hcells]
    rfl

/-- **A line is cut into its cells.** -/
theorem splitBars_tableRow {cells : List String} (hne : cells ≠ [])
    (h : ∀ cell ∈ cells, ∀ last, Guarded last cell.toList) :
    splitBars none (tableRow cells).toList = [] :: cells.map padded ++ [[]] := by
  obtain ⟨cell, cells, rfl⟩ := List.exists_cons_of_ne_nil hne
  have hline : (tableRow (cell :: cells)).toList =
      '|' :: ' ' :: ((" | ".intercalate (cell :: cells)).toList ++ [' ', '|']) := by
    rw [tableRow, String.toList_append, String.toList_append]
    simp
  rw [hline, splitBars, if_pos ⟨rfl, by decide⟩, splitBars_cells h]
  rfl

theorem notMem_tableRow {cells : List String} (h : ∀ cell ∈ cells, '\n' ∉ cell.toList) :
    '\n' ∉ (tableRow cells).toList := by
  have hcells : '\n' ∉ (" | ".intercalate cells).toList := by
    induction cells with
    | nil => decide
    | cons cell cells ih =>
      obtain ⟨hcell, hcells⟩ := List.forall_mem_cons.mp h
      cases cells with
      | nil => rwa [String.intercalate_singleton]
      | cons next cells =>
        rw [String.intercalate_cons_cons, String.toList_append, String.toList_append,
          List.mem_append, List.mem_append, not_or, not_or]
        exact ⟨⟨hcell, by decide⟩, ih hcells⟩
  rw [tableRow, String.toList_append, String.toList_append, List.mem_append, List.mem_append,
    not_or, not_or]
  exact ⟨⟨by decide, hcells⟩, by decide⟩

/-- **The rows of a rendered table are lines that are cut into their cells**, whatever their values
are; the lines above are the summary, a blank one, the names of the columns and the rule. -/
theorem rows_readBack {V : Type} (str : V → Option String) (maxWidth : ℕ) {table : RenderedTable V}
    (hcolumns : table.columns ≠ []) (hshown : table.shown ≠ [])
    (hvalues : ∀ values ∈ table.shown, values ≠ []) :
    ∃ above rows below, table.text str maxWidth = "\n".intercalate (above ++ rows ++ below) ∧
      above.length = 4 ∧ List.Forall₂ (fun values row => '\n' ∉ row.toList ∧
        splitBars none row.toList =
          [] :: values.map (fun v => padded (tableCell maxWidth (str v))) ++ [[]])
        table.shown rows := by
  let notices := table.notices.map TableNotice.text
  refine ⟨[" · ".intercalate (table.summary.map SummaryPart.text), "", tableRow table.columns,
      tableRow (table.columns.map fun _ => "---")],
    table.shown.map fun values => tableRow (values.map fun v => tableCell maxWidth (str v)),
    if notices = [] then [] else "" :: notices, ?_, rfl, ?_⟩
  · simp only [RenderedTable.text, if_neg hcolumns, if_neg hshown]
    rfl
  · rw [List.forall₂_map_right_iff, List.forall₂_same]
    intro values hmem
    constructor
    · apply notMem_tableRow
      rw [List.forall_mem_map]
      exact fun v _ => notMem_tableCell maxWidth (str v)
    · rw [splitBars_tableRow (by simpa using hvalues values hmem), List.map_map]
      · rfl
      · rw [List.forall_mem_map]
        exact fun v _ last => guarded_tableCell last maxWidth (str v)

/-- A value with a bar and a line break, and a value that is cut. -/
def barredTable : RenderedTable String where
  summary := []
  columns := ["a", "b"]
  shown := [["x|y\nz", "12345678"]]
  notices := []

theorem rows_readBack_barredTable :
    ∃ above rows below, barredTable.text some 6 = "\n".intercalate (above ++ rows ++ below) ∧
      above.length = 4 ∧ List.Forall₂ (fun values row => '\n' ∉ row.toList ∧
        splitBars none row.toList =
          [] :: values.map (fun v => padded (tableCell 6 (some v))) ++ [[]])
        barredTable.shown rows :=
  rows_readBack some 6 (List.cons_ne_nil _ _) (List.cons_ne_nil _ _) (by decide)

end NextRole
