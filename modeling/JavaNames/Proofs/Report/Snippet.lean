/-
Snippets. The line of a span is printed behind its number, with four columns for each tab, and marks stand
below the columns that show characters of the span. Main statement: the marks stand where they belong as
long as the number of the line has at most three digits; further down each digit more moves them one column
to the left.
-/
import JavaNames.Proofs.Report.Session
import JavaNames.Proofs.Text.Lines

namespace JavaNames.Report

open JavaNames.Text

/-! ## Printed lines -/

/-- A column of a printed line: what stands there, and the offset of the character that it shows. -/
structure Cell where
  char : Char
  source : Option Nat
deriving DecidableEq

/-- A column shows a character between two offsets. -/
def Cell.Within (cell : Cell) (start stop : Nat) : Prop :=
  ∃ offset ∈ cell.source, start ≤ offset ∧ offset < stop

/-- The columns for the characters of a line that begins at an offset. -/
def cells : Nat → List Char → List Cell
  | _, [] => []
  | offset, c :: rest =>
    List.replicate (Reporter.columns c) ⟨if c = '\t' then ' ' else c, some offset⟩ ++
      cells (offset + c.utf8Size) rest

/-- What stands in front of a printed line. -/
def gutter (number : Nat) : List Char := ("  " ++ Reporter.padded number ++ "   ").toList

/-- The columns in which a line is printed that stands behind others, with its number. -/
def printed (front line : List Char) : List Cell :=
  (gutter (front.count '\n' + 1)).map (⟨·, none⟩) ++ cells (byteCount front) line

/-- The marks below a printed line are right, but stand some columns to the left: they are below the
columns that show a character between two offsets, or there is one mark when no column does. -/
structure Marks (shift : Nat) (row : List Cell) (under : List Char) (start stop : Nat) : Prop where
  shown : (∃ cell ∈ row, cell.Within start stop) → ∀ column, under[column]? = some '~' ↔
    ∃ cell, row[column + shift]? = some cell ∧ cell.Within start stop
  hidden : (∀ cell ∈ row, ¬ cell.Within start stop) → under.count '~' = 1

theorem map_char_cells (offset : Nat) (line : List Char) :
    (cells offset line).map Cell.char = Reporter.expandTabs line := by
  induction line generalizing offset with
  | nil => rfl
  | cons c rest ih =>
    have hcons : Reporter.expandTabs (c :: rest) =
        (if c = '\t' then [' ', ' ', ' ', ' '] else [c]) ++ Reporter.expandTabs rest :=
      List.flatMap_cons
    rw [cells, List.map_append, ih, hcons, List.map_replicate, Reporter.columns]
    split <;> rfl

theorem map_char_printed (front line : List Char) : (printed front line).map Cell.char =
    gutter (front.count '\n' + 1) ++ Reporter.expandTabs line := by
  rw [printed, List.map_append, map_char_cells, List.map_map]
  exact congrArg (· ++ Reporter.expandTabs line) (List.map_id _)

/-- A line is printed on one line. -/
theorem lineFeed_not_mem_printed (front : List Char) {line : List Char} (h : '\n' ∉ line) :
    '\n' ∉ (printed front line).map Cell.char := by
  have hnumber := lineFeed_not_mem_toString (front.count '\n' + 1)
  have htabs : '\n' ∉ Reporter.expandTabs line := by
    intro hm
    obtain ⟨c, hc, hm⟩ := List.mem_flatMap.1 hm
    split at hm
    · revert hm
      decide
    · exact h (List.mem_singleton.1 hm ▸ hc)
  rw [map_char_printed, gutter, Reporter.padded]
  simpa [toList_pushn, htabs] using hnumber

/-- What a line shows stands at its start or behind it. -/
theorem le_of_mem_cells {offset : Nat} {line : List Char} {cell : Cell} (h : cell ∈ cells offset line) :
    ∃ place, cell.source = some place ∧ offset ≤ place := by
  induction line generalizing offset with
  | nil => cases h
  | cons c rest ih =>
    rcases List.mem_append.1 h with h | h
    · obtain rfl := List.eq_of_mem_replicate h
      exact ⟨offset, rfl, Nat.le_refl _⟩
    · obtain ⟨place, hplace, hle⟩ := ih h
      exact ⟨place, hplace, by omega⟩

theorem length_gutter (number : Nat) :
    (gutter number).length = 8 + ((toString number).length - 3) := by
  rw [gutter, Reporter.padded]
  simp only [String.toList_append, toList_pushn, List.length_append, String.length_toList,
    List.length_replicate, String.toList_empty, List.length_nil]
  change 2 + (0 + (3 - (toString number).length) + (toString number).length) + 3 = _
  omega

/-! ## Marks -/

/-- A column and an offset cut a line at the same place. -/
def SameCut (line : List Char) (first base column offset : Nat) : Prop :=
  ∀ front c behind, line = front ++ c :: behind →
    (first + front.length < column ↔ base + byteCount front < offset)

theorem SameCut.tail {c : Char} {rest : List Char} {first base column offset : Nat}
    (h : SameCut (c :: rest) first base column offset) :
    SameCut rest (first + 1) (base + c.utf8Size) column offset := by
  rintro front d behind rfl
  have hcut := h (c :: front) d behind rfl
  rw [List.length_cons, byteCount_cons] at hcut
  rw [Nat.add_right_comm, Nat.add_assoc base]
  exact hcut

theorem SameCut.head {c : Char} {rest : List Char} {first base column offset : Nat}
    (h : SameCut (c :: rest) first base column offset) : first < column ↔ base < offset :=
  h [] c rest rfl

namespace Reporter

/-- Between the columns of a span stands a mark below each character of the span. -/
theorem getElem?_marksFrom {line : List Char} {first base column stopColumn start stop : Nat}
    (hstart : SameCut line first base column start) (hstop : SameCut line first base stopColumn stop)
    (index : Nat) : (marksFrom column stopColumn first line)[index]? = some '~' ↔
      ∃ cell, (cells base line)[index]? = some cell ∧ cell.Within start stop := by
  induction line generalizing first base index with
  | nil => simp [marksFrom, cells]
  | cons c rest ih =>
    have hend := hstop.head
    rw [marksFrom]
    split
    next hge =>
      simp only [List.getElem?_nil, reduceCtorEq, false_iff]
      rintro ⟨cell, hcell, place, hplace, -, hlt⟩
      obtain ⟨place', hplace', hle⟩ := le_of_mem_cells (List.mem_of_getElem? hcell)
      obtain rfl : place = place' := Option.some.inj (hplace.symm.trans hplace')
      omega
    next hlt =>
      rw [cells, List.getElem?_append, List.getElem?_append, List.length_replicate,
        List.length_replicate]
      split
      next hindex =>
        have hbegin := hstart.head
        have hmark : (if first < column then ' ' else '~') = '~' ↔ ¬ first < column := by
          by_cases hlt : first < column <;> simp [hlt]
        rw [List.getElem?_replicate_of_lt hindex, List.getElem?_replicate_of_lt hindex,
          Option.some.injEq, hmark, hbegin]
        constructor
        · intro hle
          exact ⟨_, rfl, base, rfl, by omega, by omega⟩
        · rintro ⟨cell, hcell, place, hplace, hle, -⟩
          obtain rfl := Option.some.inj hcell
          obtain rfl : base = place := Option.some.inj hplace
          omega
      next hindex => exact ih hstart.tail hstop.tail _

/-- Marks are right below the line that they are made for. -/
theorem marks_cells {line : List Char} {base column stopColumn start stop : Nat}
    (hstart : SameCut line 1 base column start) (hstop : SameCut line 1 base stopColumn stop) :
    Marks 0 (cells base line) (marks column stopColumn line) start stop := by
  have hmarks := getElem?_marksFrom hstart hstop
  have hmem : '~' ∈ marksFrom column stopColumn 1 line ↔
      ∃ cell ∈ cells base line, cell.Within start stop := by
    simp only [List.mem_iff_getElem?, hmarks]
    exact ⟨fun ⟨index, cell, hcell, hw⟩ => ⟨cell, ⟨index, hcell⟩, hw⟩,
      fun ⟨cell, ⟨index, hcell⟩, hw⟩ => ⟨index, cell, hcell, hw⟩⟩
  by_cases hspan : '~' ∈ marksFrom column stopColumn 1 line
  · have heq : marks column stopColumn line = marksFrom column stopColumn 1 line :=
      if_pos (List.contains_iff_mem.2 hspan)
    rw [heq]
    refine ⟨fun _ => hmarks, fun hnone => ?_⟩
    obtain ⟨cell, hcell, hw⟩ := hmem.1 hspan
    exact absurd hw (hnone cell hcell)
  · have heq : marks column stopColumn line = marksFrom column stopColumn 1 line ++ ['~'] :=
      if_neg fun hc => hspan (List.contains_iff_mem.1 hc)
    rw [heq]
    refine ⟨fun hsome => absurd (hmem.2 hsome) hspan, fun _ => ?_⟩
    rw [List.count_append, List.count_eq_zero.2 hspan]
    rfl

end Reporter

/-- Marks stay right below a number that takes up as much room as the blanks in front of the marks, and
come to stand to the left below a longer one. -/
theorem Marks.behind {line : List Cell} {under : List Char} {start stop : Nat}
    (h : Marks 0 line under start stop) (number : Nat) :
    Marks ((toString number).length - 3) ((gutter number).map (⟨·, none⟩) ++ line)
      (List.replicate 8 ' ' ++ under) start stop := by
  have hgutter : ∀ cell ∈ (gutter number).map (Cell.mk · none), ¬ cell.Within start stop := by
    rintro cell hcell ⟨offset, hoffset, -⟩
    obtain ⟨c, -, rfl⟩ := List.mem_map.1 hcell
    cases hoffset
  refine ⟨fun ⟨cell, hcell, hw⟩ column => ?_, fun hnone => ?_⟩
  · have hline : ∃ cell ∈ line, cell.Within start stop :=
      ⟨cell, (List.mem_append.1 hcell).resolve_left fun hg => hgutter cell hg hw, hw⟩
    rw [List.getElem?_append, List.length_replicate, List.getElem?_append, List.length_map,
      length_gutter]
    by_cases hcolumn : column < 8
    · rw [if_pos hcolumn, if_pos (by omega), List.getElem?_replicate_of_lt hcolumn]
      refine ⟨fun hblank => absurd hblank (by decide), fun ⟨cell, hcell, hw⟩ => ?_⟩
      exact absurd hw (hgutter cell (List.mem_of_getElem? hcell))
    · have hindex : column + ((toString number).length - 3) - (8 + ((toString number).length - 3)) =
          column - 8 + 0 := by omega
      rw [if_neg hcolumn, if_neg (by omega), hindex]
      exact h.shown hline (column - 8)
  · rw [List.count_append, h.hidden fun cell hcell => hnone cell (List.mem_append_right _ hcell)]
    rfl

/-! ## Snippets -/

/-- A span ends its length behind its start, as long as a word can hold the end. -/
theorem spanStop_eq {start length : Nat} (h : start + length < 4294967296) :
    Reporter.spanStop start length = start + length := Nat.mod_eq_of_lt h

/-- A column that is counted on a line cuts what is shown of the line where the offset does. -/
theorem sameCut_prefix {line before shown : List Char} {base offset : Nat} (hshown : shown <+: line)
    (hbefore : before <+: line) (hoffset : offset = base + byteCount before) :
    SameCut shown 1 base (before.length + 1) offset := by
  rintro front c behind rfl
  have hlt := byteCount_lt_iff ((List.prefix_append front (c :: behind)).trans hshown) hbefore
  omega

/-- A column behind all that is shown of a line cuts it where an offset behind the line does. -/
theorem sameCut_end {shown : List Char} {base offset : Nat} (h : base + byteCount shown ≤ offset) :
    SameCut shown 1 base (shown.length + 1) offset := by
  rintro front c behind rfl
  have hpos : 0 < byteCount (c :: behind) := byteCount_pos (List.cons_ne_nil _ _)
  rw [byteCount_append] at h
  simp only [List.length_append, List.length_cons]
  omega

namespace Reporter

/-- A snippet in plain ink is two lines. -/
theorem snippet_plain (map : LineMap) (start length : Nat) : snippet .plain map start length =
    let (line, column) := place map start
    let text := (map.lineText (line - 1)).toList
    let marked := marks column (stopColumn map line text (spanStop start length)) text
    String.ofList ('\n' :: (gutter line ++ expandTabs text) ++
      '\n' :: (List.replicate 8 ' ' ++ marked)) := by
  refine String.toList_inj.1 ?_
  simp [snippet, gutter, Ink.plain, toString]

theorem lineFeed_not_mem_marks (column stop : Nat) (line : List Char) :
    '\n' ∉ marks column stop line := by
  have hfrom (first : Nat) : '\n' ∉ marksFrom column stop first line := by
    induction line generalizing first with
    | nil => exact List.not_mem_nil
    | cons c rest ih =>
      rw [marksFrom]
      split
      · exact List.not_mem_nil
      · refine fun hm => (List.mem_append.1 hm).elim (fun hm => ?_) (ih _)
        have heq := List.eq_of_mem_replicate hm
        split at heq <;> cases heq
  rw [marks]
  split
  · exact hfrom 1
  · exact fun hm => (List.mem_append.1 hm).elim (hfrom 1) (by decide)

end Reporter

section

variable {text : String} {start length : Nat} {front shown ends behind : List Char}

/-- The column up to which a line is marked cuts what is shown of it where the span ends. -/
theorem sameCut_stopColumn (h : LineSplit text start front shown ends behind) {stop : Nat}
    (hle : start ≤ stop) (hstop : stop ∈ boundaries text) :
    SameCut shown 1 (byteCount front)
      (Reporter.stopColumn (LineMap.ofSource text) (front.count '\n' + 1) shown stop) stop := by
  have hshown : shown <+: shown ++ ends := List.prefix_append shown ends
  by_cases hline : stop ≤ byteCount (front ++ (shown ++ ends))
  · obtain ⟨before, hbefore, hoffset, hpos⟩ := h.position_eq hstop (h.start_le.trans hle) hline
    rw [Reporter.stopColumn, Reporter.place, hpos]
    dsimp only
    rw [if_pos rfl]
    exact sameCut_prefix hshown hbefore hoffset
  · have hlt := h.line_lt hstop (Nat.lt_of_not_le hline)
    rw [Reporter.stopColumn, Reporter.place]
    dsimp only
    rw [if_neg (by omega)]
    refine sameCut_end ?_
    rw [byteCount_append, byteCount_append] at hline
    omega

/-- A snippet points at a span of a text: it is two lines, the one that the span begins on behind its
number, and marks for the span, as many columns to the left as the number of the line says. -/
def Points (shift : Nat → Nat) (text : String) (start length : Nat) (snippet : String) : Prop :=
  ∃ front shown ends behind under, LineSplit text start front shown ends behind ∧
    snippet = String.ofList ('\n' :: (printed front shown).map Cell.char ++ '\n' :: under) ∧
    '\n' ∉ (printed front shown).map Cell.char ∧ '\n' ∉ under ∧
    Marks (shift (front.count '\n' + 1)) (printed front shown) under start (start + length)

theorem snippet_eq (h : LineSplit text start front shown ends behind)
    (hstart : start ∈ boundaries text) (hword : start + length < 4294967296) :
    ∃ column, SameCut shown 1 (byteCount front) column start ∧
      Reporter.snippet .plain (LineMap.ofSource text) start length =
        String.ofList ('\n' :: (printed front shown).map Cell.char ++
          '\n' :: (List.replicate 8 ' ' ++ Reporter.marks column (Reporter.stopColumn
            (LineMap.ofSource text) (front.count '\n' + 1) shown (start + length)) shown)) := by
  obtain ⟨before, hbefore, hoffset, hpos⟩ := h.position_eq hstart h.start_le h.le_stop
  refine ⟨before.length + 1, sameCut_prefix (List.prefix_append shown ends) hbefore hoffset, ?_⟩
  rw [Reporter.snippet_plain, spanStop_eq hword, Reporter.place, hpos]
  simp only [Nat.add_sub_cancel, h.lineText, String.toList_ofList]
  rw [map_char_printed]

/-- A snippet shows one line, and points at the span by the marks below this one. -/
theorem Points.marks {shift : Nat → Nat} {snippet : String} {under : List Char}
    (hp : Points shift text start length snippet) (h : LineSplit text start front shown ends behind)
    (hstart : start ∈ boundaries text) (hsnippet : snippet =
      String.ofList ('\n' :: (printed front shown).map Cell.char ++ '\n' :: under)) :
    Marks (shift (front.count '\n' + 1)) (printed front shown) under start (start + length) := by
  obtain ⟨front', shown', ends', behind', under', h', hsnippet', -, -, hmarks⟩ := hp
  obtain ⟨hcount, hbytes, rfl⟩ := h.unique h' hstart
  have hprinted : printed front' shown = printed front shown := by
    rw [printed, printed, hcount, hbytes]
  rw [hprinted, ← hcount] at hmarks
  rw [hprinted] at hsnippet'
  obtain rfl : under' = under := by
    have hlines := String.ofList_injective (hsnippet'.symm.trans hsnippet)
    simpa using hlines
  exact hmarks

/-- What a snippet shows of a line, and the marks below it. -/
theorem points_of_lineSplit (h : LineSplit text start front shown ends behind)
    (hstart : start ∈ boundaries text) (hstop : start + length ∈ boundaries text)
    (hword : start + length < 4294967296) :
    Points (fun number => (toString number).length - 3) text start length
      (Reporter.snippet .plain (LineMap.ofSource text) start length) := by
  obtain ⟨column, hcut, hsnippet⟩ := snippet_eq h hstart hword
  have hcut' := sameCut_stopColumn h (Nat.le_add_right start length) hstop
  refine ⟨front, shown, ends, behind, _, h, hsnippet,
    lineFeed_not_mem_printed _ fun hm => h.unbroken (List.mem_append_left _ hm), fun hm => ?_,
    (Reporter.marks_cells hcut hcut').behind _⟩
  refine (List.mem_append.1 hm).elim (fun hm => ?_) (Reporter.lineFeed_not_mem_marks _ _ _)
  cases List.eq_of_mem_replicate hm

end

namespace Reporter

/-- What a reporter prints for a span of a file that it has the text of. -/
theorem run_snippet? {reporter : Reporter} {file text : String} {start length : Nat}
    (h : reporter.Coherent) (hfile : file ≠ "") (htext : reporter.text? file = some text)
    (hlength : 0 < length) : ((snippet? file start length).run reporter).1 =
      some (snippet reporter.ink (LineMap.ofSource text) start length) := by
  have hlines := (run_lines? h file).1
  rw [if_neg fun he => hfile (String.isEmpty_iff.1 he), htext] at hlines
  rw [snippet?, if_neg (Nat.ne_of_gt hlength)]
  exact congrArg (Option.map _) hlines

theorem run_snippet?_after (disk : String → Option String) {requests : List Request}
    {file text : String} (hfile : file ≠ "") (htext : Request.latest? requests file = some text)
    {start length : Nat} (hlength : 0 < length) :
    ((snippet? file start length).run ((fresh .plain disk).after requests)).1 =
      some (snippet .plain (LineMap.ofSource text) start length) := by
  have hafter := kept_after (coherent_fresh .plain disk) requests
  have hink : ((fresh .plain disk).after requests).ink = .plain := by
    rw [hafter.ink, ink_addSources]
    rfl
  rw [run_snippet? hafter.coherent hfile (by rw [text?_after, htext, Option.some_or]) hlength, hink]

/-- Snippets point at the right text, up to a column for each digit that the number of the line has
beyond the third. The snippet for a span between characters of a file is the line that the span begins on,
behind its number, and below it marks: where the number has at most three digits they stand below the
columns that show a character of the span, and below a longer number that many columns to the left. -/
theorem snippet_points (disk : String → Option String) {requests : List Request} {file text : String}
    (hfile : file ≠ "") (htext : Request.latest? requests file = some text) {start length : Nat}
    (hlength : 0 < length) (hstart : String.Pos.Raw.IsValid text ⟨start⟩)
    (hstop : String.Pos.Raw.IsValid text ⟨start + length⟩) (hword : start + length < 4294967296) :
    ∃ snippet, ((snippet? file start length).run ((fresh .plain disk).after requests)).1 = some snippet ∧
      Points (fun number => (toString number).length - 3) text start length snippet := by
  obtain ⟨front, shown, ends, behind, h⟩ := exists_lineSplit hstart
  exact ⟨_, run_snippet?_after disk hfile htext hlength, points_of_lineSplit h hstart hstop hword⟩

/-- Two letters behind a tab on the second line have marks below them. -/
theorem snippet_points_tab : ∃ snippet,
    ((snippet? "A.java" 3 2).run ((fresh .plain fun _ => none).after [.addSource "A.java" "a\n\tbc d"])).1 =
        some snippet ∧
      Points (fun number => (toString number).length - 3) "a\n\tbc d" 3 2 snippet := by
  have hstart := isValid_byteCount ['a', '\n', '\t'] ['b', 'c', ' ', 'd']
  have hstop := isValid_byteCount ['a', '\n', '\t', 'b', 'c'] [' ', 'd']
  exact snippet_points _ (by decide) (by rfl) (by decide) hstart hstop (by decide)

/-- A letter behind empty lines stands on a line of its own. -/
theorem lineSplit_replicate (n : Nat) :
    LineSplit (String.ofList (List.replicate n '\n' ++ ['a'])) n (List.replicate n '\n') ['a'] [] [] := by
  have hbytes : byteCount (List.replicate n '\n') = n :=
    (byteCount_replicate n '\n').trans (Nat.mul_one n)
  refine ⟨?_, fun c hc => List.eq_of_mem_replicate (List.mem_of_getLast? hc), by decide,
    fun _ hc => absurd hc List.not_mem_nil, fun c hc => ?_, fun _ hc => (nomatch hc), Nat.le_of_eq hbytes, ?_⟩
  · rw [List.append_nil, List.append_nil]
  · obtain rfl : 'a' = c := Option.some.inj hc
    decide
  · rw [byteCount_append, hbytes]
    exact Nat.le_add_right _ _

/-- Behind 999 empty lines the mark stands in front of the column that it belongs to. -/
theorem not_points_thousand : ∃ snippet,
    ((snippet? "A.java" 999 1).run ((fresh .plain fun _ => none).after
        [.addSource "A.java" (String.ofList (List.replicate 999 '\n' ++ ['a']))])).1 = some snippet ∧
      ¬ Points (fun _ => 0) (String.ofList (List.replicate 999 '\n' ++ ['a'])) 999 1 snippet := by
  refine ⟨_, run_snippet?_after _ (by decide) (by rfl) (by decide), fun hp => ?_⟩
  have h := lineSplit_replicate 999
  have hbytes : byteCount (List.replicate 999 '\n') = 999 := byteCount_replicate 999 '\n'
  have hstart := isValid_byteCount (List.replicate 999 '\n') ['a']
  have hstop := isValid_byteCount (List.replicate 999 '\n' ++ ['a']) []
  rw [hbytes] at hstart
  rw [List.append_nil, byteCount_append, hbytes] at hstop
  obtain ⟨column, -, hsnippet⟩ := snippet_eq h hstart (show 999 + 1 < 4294967296 by decide)
  have hclaimed := hp.marks h hstart hsnippet
  have hshifted := (points_of_lineSplit h hstart hstop (by decide)).marks h hstart hsnippet
  have hdigits : (toString 1000).length - 3 = 1 := by decide +kernel
  rw [List.count_replicate_self] at hclaimed hshifted
  rw [hdigits] at hshifted
  -- the mark is in the ninth column, where a blank stands in front of the letter
  have hletter : (printed (List.replicate 999 '\n') ['a'])[9]? = some ⟨'a', some 999⟩ := by decide +kernel
  have hblank : (printed (List.replicate 999 '\n') ['a'])[8]? = some ⟨' ', none⟩ := by decide +kernel
  have hw : Cell.Within ⟨'a', some 999⟩ 999 (999 + 1) := ⟨999, rfl, by decide, by decide⟩
  have hsome : ∃ cell ∈ printed (List.replicate 999 '\n') ['a'], cell.Within 999 (999 + 1) :=
    ⟨_, List.mem_of_getElem? hletter, hw⟩
  obtain ⟨cell, hcell, place, hplace, -⟩ :=
    (hclaimed.shown hsome 8).1 ((hshifted.shown hsome 8).2 ⟨_, hletter, hw⟩)
  obtain rfl := Option.some.inj (hblank.symm.trans hcell)
  cases hplace

end Reporter

end JavaNames.Report
