/-
Positions in a text. An offset between two characters stands on the line that is counted by the line
feeds before it, as far into that line as there are characters since the last of them. Main statement:
a position tells the offset that it was made from, and positions come one behind the other as the offsets
do; behind the end of the text there is no other position than that of the end.
-/
import JavaNames.Proofs.Text.Slice
import JavaNames.Text.LineMap
import Mathlib.Data.List.DropRight
import Mathlib.Data.Prod.Lex
import Mathlib.Order.Monotone.Defs

namespace JavaNames.Text

/-! ## Where lines start -/

/-- The offsets of a text that stand between two characters, or at one of its ends. -/
def boundaries (source : String) : Set Nat := {offset | String.Pos.Raw.IsValid source ⟨offset⟩}

theorem startsAfter_append (offset : Nat) (cs more : List Char) :
    startsAfter offset (cs ++ more) =
      startsAfter offset cs ++ startsAfter (offset + byteCount cs) more := by
  induction cs generalizing offset with
  | nil => rfl
  | cons c cs ih =>
    simp only [List.cons_append, startsAfter, ih, byteCount_cons, Nat.add_assoc]
    split <;> rfl

theorem length_startsAfter (offset : Nat) (cs : List Char) :
    (startsAfter offset cs).length = cs.count '\n' := by
  induction cs generalizing offset with
  | nil => rfl
  | cons c cs ih =>
    rw [startsAfter, List.count_cons]
    split <;> simp_all

/-- Lines start behind the characters that come first, and not behind the last of them. -/
theorem bounds_of_mem_startsAfter {offset start : Nat} {cs : List Char}
    (h : start ∈ startsAfter offset cs) : offset < start ∧ start ≤ offset + byteCount cs := by
  induction cs generalizing offset with
  | nil => cases h
  | cons c cs ih =>
    have hpos := c.utf8Size_pos
    rw [byteCount_cons]
    rw [startsAfter] at h
    split at h
    · rcases List.mem_cons.1 h with rfl | h
      · omega
      · have := ih h
        omega
    · have := ih h
      omega

/-- Lines start one behind the other. -/
theorem pairwise_startsAfter (offset : Nat) (cs : List Char) : (startsAfter offset cs).Pairwise (· < ·) := by
  induction cs generalizing offset with
  | nil => exact .nil
  | cons c cs ih =>
    rw [startsAfter]
    split
    · exact .cons (fun _ hs => (bounds_of_mem_startsAfter hs).1) (ih _)
    · exact ih _

/-- Characters that make up whole lines: the last one, if there is any, is a line feed. -/
def WholeLines (cs : List Char) : Prop := ∀ c ∈ cs.getLast?, c = '\n'

/-- The characters of a text behind its last line feed. -/
abbrev lastLine (cs : List Char) : List Char := cs.rtakeWhile (· ≠ '\n')

theorem not_mem_lastLine (cs : List Char) : '\n' ∉ lastLine cs := fun h => by
  simpa using List.mem_rtakeWhile_imp h

/-- A text is made up of whole lines and the line that it ends in. -/
theorem exists_wholeLines (cs : List Char) : ∃ front, WholeLines front ∧ cs = front ++ lastLine cs := by
  refine ⟨cs.rdropWhile (· ≠ '\n'), fun c hc => ?_, List.rdropWhile_append_rtakeWhile.symm⟩
  obtain ⟨hne, rfl⟩ := List.mem_getLast?_eq_getLast hc
  simpa using List.rdropWhile_last_not _ _ hne

/-- A line begins behind whole lines. -/
theorem lastLine_append {front line : List Char} (hfront : WholeLines front) (hline : '\n' ∉ line) :
    lastLine (front ++ line) = line := by
  induction line using List.reverseRecOn with
  | nil =>
    rw [List.append_nil, lastLine, List.rtakeWhile_eq_nil_iff]
    exact fun hne => by simp [hfront _ (List.getLast?_eq_some_getLast hne)]
  | append_singleton line c ih =>
    rw [List.mem_append, not_or] at hline
    have hc : c ≠ '\n' := fun hc => hline.2 (by simp [hc])
    rw [← List.append_assoc, lastLine, List.rtakeWhile_concat_pos _ _ _ (by simpa using hc)]
    exact congrArg (· ++ [c]) (ih hline.1)

namespace LineMap

theorem pairwise_starts (source : String) : (ofSource source).starts.Pairwise (· < ·) :=
  .cons (fun _ hs => (bounds_of_mem_startsAfter hs).1) (pairwise_startsAfter 0 source.toList)

/-- Below the limit of a word every line starts at an offset that a word holds. -/
theorem narrow_starts {source : String} (h : source.utf8ByteSize < UInt32.size) :
    ∀ start ∈ (ofSource source).starts, narrow start = start := by
  intro start hs
  rcases List.mem_cons.1 hs with rfl | hs
  · rfl
  · have hle := (bounds_of_mem_startsAfter hs).2
    rw [Nat.zero_add, ← utf8ByteSize_ofList, String.ofList_toList] at hle
    exact narrow_of_lt (Nat.lt_of_le_of_lt hle h)

theorem countP_of_idxOf? {starts : List Nat} (hs : starts.Pairwise (· < ·)) {offset index : Nat}
    (h : starts.idxOf? offset = some index) : starts.countP (· ≤ offset) = index + 1 := by
  induction hs generalizing index with
  | nil => cases h
  | @cons start starts hstart _ ih =>
    rw [List.idxOf?_cons] at h
    rw [List.countP_cons]
    split at h
    · rename_i heq
      obtain rfl := eq_of_beq heq
      cases h
      have hnone : starts.countP (· ≤ start) = 0 :=
        List.countP_eq_zero.2 fun other ho => by simpa using hstart other ho
      simp [hnone]
    · obtain ⟨before, hbefore, rfl⟩ := Option.map_eq_some_iff.1 h
      have hmem : offset ∈ starts := List.isSome_idxOf?.1 (by rw [hbefore]; rfl)
      rw [ih hbefore, if_pos (decide_eq_true (Nat.le_of_lt (hstart offset hmem)))]

/-- The line of an offset is the last one that starts at it or before it. -/
theorem lineOf_eq_countP (source : String) (offset : Nat) :
    (ofSource source).lineOf offset = (ofSource source).starts.countP (· ≤ offset) - 1 := by
  rw [lineOf, search]
  cases h : (ofSource source).starts.idxOf? offset with
  | some index =>
    rw [countP_of_idxOf? (pairwise_starts source) h]
    rfl
  | none =>
    refine congrArg (· - 1) (List.countP_congr fun start hs => ?_)
    have hne : start ≠ offset := fun he => List.idxOf?_eq_none_iff.1 h (he ▸ hs)
    rw [decide_eq_true_eq, decide_eq_true_eq]
    exact ⟨Nat.le_of_lt, fun hle => Nat.lt_of_le_of_ne hle hne⟩

/-- The line that starts behind whole lines is the one that they count. -/
theorem starts_wholeLines {front : List Char} (h : WholeLines front) (behind : List Char) :
    (ofSource (String.ofList (front ++ behind))).starts[front.count '\n']? =
      some (byteCount front) := by
  rw [ofSource, String.toList_ofList, startsAfter_append, Nat.zero_add]
  rcases List.eq_nil_or_concat front with rfl | ⟨front, c, rfl⟩
  · rfl
  · obtain rfl : c = '\n' := h c (by simp)
    simp [startsAfter_append, startsAfter, length_startsAfter]

/-- The line of an offset is the number of line feeds before it. -/
theorem lineOf_byteCount (before behind : List Char) :
    (ofSource (String.ofList (before ++ behind))).lineOf (byteCount before) = before.count '\n' := by
  have hbefore : (startsAfter 0 before).countP (· ≤ byteCount before) = before.count '\n' := by
    rw [List.countP_eq_length.2, length_startsAfter]
    intro start hs
    have := (bounds_of_mem_startsAfter hs).2
    simpa using this
  have hbehind : (startsAfter (byteCount before) behind).countP (· ≤ byteCount before) = 0 := by
    refine List.countP_eq_zero.2 fun start hs => ?_
    have := (bounds_of_mem_startsAfter hs).1
    simpa using this
  rw [lineOf_eq_countP, ofSource, String.toList_ofList, startsAfter_append, Nat.zero_add, List.countP_cons,
    List.countP_append, hbefore, hbehind]
  simp

/-- Where an offset stands that is some way into the line behind whole lines. -/
theorem position_wholeLines {front line : List Char} (hfront : WholeLines front)
    (hline : '\n' ∉ line) (behind : List Char) :
    (ofSource (String.ofList (front ++ line ++ behind))).position
      (byteCount front + byteCount line) = ⟨front.count '\n', line.length⟩ := by
  have hcount : (front ++ line).count '\n' = front.count '\n' := by
    rw [List.count_append, List.count_eq_zero.2 hline, Nat.add_zero]
  have hof := lineOf_byteCount (front ++ line) behind
  rw [byteCount_append, hcount] at hof
  have hstart := starts_wholeLines hfront (line ++ behind)
  rw [← List.append_assoc] at hstart
  have hsize : byteCount front + byteCount line ≤
      (ofSource (String.ofList (front ++ line ++ behind))).source.utf8ByteSize := by
    rw [ofSource, utf8ByteSize_ofList, byteCount_append, byteCount_append]
    exact Nat.le_add_right _ _
  rw [position, hof, List.getD_eq_getElem?_getD, hstart, Nat.min_eq_left hsize, Option.getD_some,
    Nat.min_eq_left (Nat.le_add_right _ _), slice, ofSource, slice?_append]
  simp

/-- Where an offset stands: as many lines down as there are line feeds before it, and as many
characters into its line as there are since the last of them. -/
theorem position_byteCount (before behind : List Char) :
    (ofSource (String.ofList (before ++ behind))).position (byteCount before) =
      ⟨before.count '\n', (lastLine before).length⟩ := by
  obtain ⟨front, hfront, hbefore⟩ := exists_wholeLines before
  have h := position_wholeLines hfront (not_mem_lastLine before) behind
  rw [← byteCount_append, ← hbefore] at h
  rw [h, hbefore, List.count_append, List.count_eq_zero.2 (not_mem_lastLine _), Nat.add_zero,
    lastLine_append hfront (not_mem_lastLine before)]

end LineMap

/-! ## What stands on a line -/

/-- The line of a text that an offset stands on, taken apart: whole lines in front of it, what is shown
of it, the carriage returns at its end, and what is behind it from its line feed on. -/
structure LineSplit (text : String) (offset : Nat) (front shown ends behind : List Char) : Prop where
  text : text = String.ofList (front ++ (shown ++ ends) ++ behind)
  wholeLines : WholeLines front
  unbroken : '\n' ∉ shown ++ ends
  returns : ∀ c ∈ ends, c = '\r'
  last : ∀ c ∈ shown.getLast?, c ≠ '\r'
  feed : ∀ c ∈ behind.head?, c = '\n'
  start_le : byteCount front ≤ offset
  le_stop : offset ≤ byteCount (front ++ (shown ++ ends))

/-- There is a line for every offset between two characters. -/
theorem exists_lineSplit {text : String} {offset : Nat} (h : offset ∈ boundaries text) :
    ∃ front shown ends behind, LineSplit text offset front shown ends behind := by
  obtain ⟨before, rest, rfl, rfl⟩ := exists_of_isValid h
  obtain ⟨front, hfront, hbefore⟩ := exists_wholeLines before
  generalize hcs : lastLine before ++ rest.takeWhile (· ≠ '\n') = cs
  refine ⟨front, cs.rdropWhile (· = '\r'), cs.rtakeWhile (· = '\r'), rest.dropWhile (· ≠ '\n'), ?_⟩
  have hjoin : cs.rdropWhile (· = '\r') ++ cs.rtakeWhile (· = '\r') = cs :=
    List.rdropWhile_append_rtakeWhile
  refine ⟨?_, hfront, ?_, fun c hc => ?_, fun c hc => ?_, fun c hc => ?_, ?_, ?_⟩
  · rw [hjoin, ← hcs, ← List.append_assoc, ← hbefore, List.append_assoc,
      List.takeWhile_append_dropWhile]
  · rw [hjoin, ← hcs, List.mem_append, not_or]
    exact ⟨not_mem_lastLine before, fun hm => by simpa using List.mem_takeWhile_imp hm⟩
  · simpa using List.mem_rtakeWhile_imp hc
  · obtain ⟨hne, rfl⟩ := List.mem_getLast?_eq_getLast hc
    simpa using List.rdropWhile_last_not _ _ hne
  · have hnot := List.head?_dropWhile_not (· ≠ '\n') rest
    rw [Option.mem_def.1 hc] at hnot
    simpa using hnot
  · conv_rhs => rw [hbefore, byteCount_append]
    exact Nat.le_add_right _ _
  · rw [hjoin, ← hcs, ← List.append_assoc, ← hbefore, byteCount_append]
    exact Nat.le_add_right _ _

section

variable {text : String} {offset : Nat} {front shown ends behind : List Char}

/-- Without the carriage returns and the line feed at its end, a line is what is shown of it. -/
theorem withoutLineEnd_append {shown ends : List Char} (hshown : '\n' ∉ shown)
    (hlast : ∀ c ∈ shown.getLast?, c ≠ '\r') (hends : ∀ c ∈ ends, c = '\n' ∨ c = '\r') :
    LineMap.withoutLineEnd (String.ofList (shown ++ ends)) = String.ofList shown := by
  rw [LineMap.withoutLineEnd, String.toList_ofList]
  refine congrArg String.ofList ?_
  change (shown ++ ends).rdropWhile _ = shown
  induction ends using List.reverseRecOn with
  | nil =>
    rw [List.append_nil, List.rdropWhile_eq_self_iff]
    intro hne hend
    have hmem := List.getLast?_eq_some_getLast hne
    rcases (by simpa using hend : shown.getLast hne = '\n' ∨ shown.getLast hne = '\r') with hc | hc
    · exact hshown (hc ▸ List.getLast_mem hne)
    · exact hlast _ hmem hc
  | append_singleton ends c ih =>
    rw [← List.append_assoc, List.rdropWhile_concat_pos _ _ _ (by simpa using hends c (by simp))]
    exact ih fun c hc => hends c (List.mem_append_left _ hc)

/-- The text of a line is what stands between its start and the next one, without the end. -/
theorem lineText_of_starts {line : Nat} {cs more : List Char}
    (hstart : (LineMap.ofSource (String.ofList (front ++ cs ++ more))).starts[line]? =
      some (byteCount front))
    (hstop : (LineMap.ofSource (String.ofList (front ++ cs ++ more))).starts.getD (line + 1)
      (byteCount (front ++ cs ++ more)) = byteCount front + byteCount cs) :
    (LineMap.ofSource (String.ofList (front ++ cs ++ more))).lineText line =
      LineMap.withoutLineEnd (String.ofList cs) := by
  have hsize : (LineMap.ofSource (String.ofList (front ++ cs ++ more))).source.utf8ByteSize =
      byteCount (front ++ cs ++ more) := utf8ByteSize_ofList _
  have hslice : slice (LineMap.ofSource (String.ofList (front ++ cs ++ more))).source
      (byteCount front) (byteCount front + byteCount cs) = String.ofList cs := by
    rw [slice, LineMap.ofSource, slice?_append, Option.getD_some]
  rw [LineMap.lineText, hstart, hsize, hstop]
  exact congrArg LineMap.withoutLineEnd hslice

theorem LineSplit.lineText (h : LineSplit text offset front shown ends behind) :
    (LineMap.ofSource text).lineText (front.count '\n') = String.ofList shown := by
  obtain ⟨rfl, hfront, hline, hends, hlast, hfeed, -, -⟩ := h
  have hshown : '\n' ∉ shown := fun hm => hline (List.mem_append_left _ hm)
  have hstart := LineMap.starts_wholeLines hfront (shown ++ ends ++ behind)
  rw [← List.append_assoc] at hstart
  cases behind with
  | nil =>
    rw [lineText_of_starts hstart ?_]
    · exact withoutLineEnd_append hshown hlast fun c hc => .inr (hends c hc)
    · rw [List.getD_eq_getElem?_getD, List.getElem?_eq_none, Option.getD_none, List.append_nil,
        byteCount_append]
      rw [LineMap.ofSource, List.length_cons, length_startsAfter, String.toList_ofList,
        List.append_nil, List.count_append, List.count_eq_zero.2 hline, Nat.add_zero]
  | cons c behind =>
    obtain rfl : c = '\n' := hfeed c rfl
    have htext : front ++ (shown ++ ends) ++ '\n' :: behind =
        front ++ (shown ++ (ends ++ ['\n'])) ++ behind := by simp
    have hlines : WholeLines (front ++ (shown ++ (ends ++ ['\n']))) := fun c hc => by
      simpa using hc.symm
    have hnext := LineMap.starts_wholeLines hlines behind
    have hcount : (front ++ (shown ++ (ends ++ ['\n']))).count '\n' = front.count '\n' + 1 := by
      rw [← List.append_assoc shown, List.count_append, List.count_append, List.count_eq_zero.2 hline]
      rfl
    rw [hcount] at hnext
    rw [htext] at hstart ⊢
    rw [lineText_of_starts hstart ?_]
    · refine withoutLineEnd_append hshown hlast fun c hc => ?_
      rcases List.mem_append.1 hc with hc | hc
      · exact .inr (hends c hc)
      · exact .inl (List.mem_singleton.1 hc)
    · rw [List.getD_eq_getElem?_getD, hnext, Option.getD_some, byteCount_append]

/-- What the line of an offset shows and its end come first among the characters from its start on. -/
theorem LineSplit.prefix_line (h : LineSplit text offset front shown ends behind) :
    front ++ (shown ++ ends) <+: text.toList := by
  rw [h.text, String.toList_ofList]
  exact List.prefix_append _ behind

/-- Where an offset stands that is on the line: as far into it as characters of it come before. -/
theorem LineSplit.position_eq (h : LineSplit text offset front shown ends behind) {other : Nat}
    (ho : other ∈ boundaries text) (hge : byteCount front ≤ other)
    (hle : other ≤ byteCount (front ++ (shown ++ ends))) :
    ∃ before, before <+: shown ++ ends ∧ other = byteCount front + byteCount before ∧
      (LineMap.ofSource text).position other = ⟨front.count '\n', before.length⟩ := by
  obtain ⟨start, rest, htext, rfl⟩ := exists_of_isValid ho
  have hstart : start <+: text.toList := by
    rw [htext, String.toList_ofList]
    exact List.prefix_append _ rest
  obtain ⟨before, rfl⟩ := prefix_of_byteCount_le ((List.prefix_append _ _).trans h.prefix_line) hstart hge
  have hbefore := prefix_of_byteCount_le hstart h.prefix_line hle
  rw [List.prefix_append_right_inj] at hbefore
  refine ⟨before, hbefore, byteCount_append _ _, ?_⟩
  rw [htext, byteCount_append, LineMap.position_wholeLines h.wholeLines fun hm => h.unbroken (hbefore.mem hm)]

/-- There is one line for an offset. -/
theorem LineSplit.unique (h : LineSplit text offset front shown ends behind)
    {front' shown' ends' behind' : List Char}
    (h' : LineSplit text offset front' shown' ends' behind') (ho : offset ∈ boundaries text) :
    front.count '\n' = front'.count '\n' ∧ byteCount front = byteCount front' ∧ shown = shown' := by
  obtain ⟨_, -, -, hpos⟩ := h.position_eq ho h.start_le h.le_stop
  obtain ⟨_, -, -, hpos'⟩ := h'.position_eq ho h'.start_le h'.le_stop
  have hcount : front.count '\n' = front'.count '\n' :=
    (Position.mk.inj (hpos.symm.trans hpos')).1
  have hstart := LineMap.starts_wholeLines h.wholeLines (shown ++ ends ++ behind)
  have hstart' := LineMap.starts_wholeLines h'.wholeLines (shown' ++ ends' ++ behind')
  have hshown := h.lineText
  rw [← List.append_assoc, ← h.text] at hstart
  rw [← List.append_assoc, ← h'.text, ← hcount, hstart] at hstart'
  rw [hcount, h'.lineText] at hshown
  exact ⟨hcount, Option.some.inj hstart', (String.ofList_injective hshown).symm⟩

/-- An offset behind the end of the line is on another line. -/
theorem LineSplit.line_lt (h : LineSplit text offset front shown ends behind) {other : Nat}
    (ho : other ∈ boundaries text) (hlt : byteCount (front ++ (shown ++ ends)) < other) :
    front.count '\n' < ((LineMap.ofSource text).position other).line := by
  obtain ⟨start, rest, htext, rfl⟩ := exists_of_isValid ho
  have hstart : start <+: text.toList := by
    rw [htext, String.toList_ofList]
    exact List.prefix_append _ rest
  obtain ⟨more, rfl⟩ := prefix_of_byteCount_le h.prefix_line hstart (Nat.le_of_lt hlt)
  have hbehind : behind = more ++ rest := by
    have hsplit := h.text.symm.trans htext
    simpa using congrArg String.toList hsplit
  cases more with
  | nil => simp at hlt
  | cons c more =>
    -- what is behind the end of the line begins with a line feed
    obtain rfl : c = '\n' := h.feed c (by rw [hbehind]; rfl)
    rw [htext, LineMap.position_byteCount, List.count_append, List.count_append, List.count_cons_self]
    change front.count '\n' < front.count '\n' + (shown ++ ends).count '\n' + (more.count '\n' + 1)
    omega

end

namespace LineMap

/-! ## Back to offsets -/

/-- The offset that is a number of characters into a line. -/
def offset? (map : LineMap) (position : Position) : Option Nat :=
  map.starts[position.line]?.map fun start =>
    start + byteCount
      ((slice map.source start map.source.utf8ByteSize).toList.take position.character)

/-- A position tells the offset that it was made from. -/
theorem offset?_position (before behind : List Char) :
    (ofSource (String.ofList (before ++ behind))).offset?
        ((ofSource (String.ofList (before ++ behind))).position (byteCount before)) =
      some (byteCount before) := by
  obtain ⟨front, hfront, hbefore⟩ := exists_wholeLines before
  have hline := not_mem_lastLine before
  generalize lastLine before = line at hbefore hline
  subst hbefore
  have hsize : (String.ofList (front ++ line ++ behind)).utf8ByteSize =
      byteCount front + byteCount (line ++ behind) := by
    rw [utf8ByteSize_ofList, List.append_assoc, byteCount_append]
  have hslice := slice?_append front (line ++ behind) []
  have hstart := starts_wholeLines hfront (line ++ behind)
  rw [List.append_nil, ← List.append_assoc, ← hsize] at hslice
  rw [← List.append_assoc] at hstart
  rw [byteCount_append, position_wholeLines hfront hline, offset?, hstart, Option.map_some, slice,
    ofSource, hslice, Option.getD_some, String.toList_ofList, List.take_left]

end LineMap

/-! ## Order -/

/-- Positions in the order of the text: by lines, and on one line by characters. -/
def Position.key (position : Position) : ℕ ×ₗ ℕ := toLex (position.line, position.character)

/-- A boundary further on in a text stands behind some more characters. -/
theorem exists_further {before behind : List Char} {offset : Nat}
    (h : offset ∈ boundaries (String.ofList (before ++ behind))) (hlt : byteCount before < offset) :
    ∃ more behind', more ≠ [] ∧ before ++ behind = before ++ more ++ behind' ∧
      offset = byteCount (before ++ more) := by
  obtain ⟨front, back, hsource, rfl⟩ := exists_of_isValid h
  replace hsource : before ++ behind = front ++ back := by
    simpa using congrArg String.toList hsource
  rcases List.append_eq_append_iff.1 hsource with ⟨more, rfl, rfl⟩ | ⟨more, rfl, -⟩
  · refine ⟨more, back, ?_, by rw [List.append_assoc], rfl⟩
    rintro rfl
    simp at hlt
  · rw [byteCount_append] at hlt
    omega

namespace LineMap

/-- Some characters further on in a text the position is a later one. -/
theorem key_position_lt (before : List Char) {more : List Char} (hmore : more ≠ [])
    (behind : List Char) :
    ((ofSource (String.ofList (before ++ more ++ behind))).position (byteCount before)).key <
      ((ofSource (String.ofList (before ++ more ++ behind))).position
        (byteCount (before ++ more))).key := by
  rw [position_byteCount, List.append_assoc before, position_byteCount, Position.key, Position.key,
    Prod.Lex.toLex_lt_toLex, List.count_append]
  by_cases hline : '\n' ∈ more
  · left
    exact Nat.lt_add_of_pos_right (List.count_pos_iff.2 hline)
  · right
    obtain ⟨front, hfront, hbefore⟩ := exists_wholeLines before
    have hlast : lastLine (before ++ more) = lastLine before ++ more := by
      have hmem : '\n' ∉ lastLine before ++ more := by
        simpa [hline] using not_mem_lastLine before
      rw [← lastLine_append hfront hmem, ← List.append_assoc, ← hbefore]
    rw [hlast, List.length_append, List.count_eq_zero.2 hline]
    exact ⟨rfl, Nat.lt_add_of_pos_right (List.length_pos_iff.2 hmore)⟩

/-- Behind the end of a text there is no position but that of the end. -/
theorem position_of_le (source : String) {offset : Nat} (h : source.utf8ByteSize ≤ offset) :
    (ofSource source).position offset = (ofSource source).position source.utf8ByteSize := by
  have hlast (last : Nat) (hl : source.utf8ByteSize ≤ last) :
      (ofSource source).lineOf last = source.toList.count '\n' := by
    have hall : (ofSource source).starts.countP (· ≤ last) = (ofSource source).starts.length := by
      refine List.countP_eq_length.2 fun start hs => decide_eq_true ?_
      rcases List.mem_cons.1 hs with rfl | hs
      · exact Nat.zero_le last
      · have := (bounds_of_mem_startsAfter hs).2
        rw [← utf8ByteSize_ofList, String.ofList_toList] at this
        omega
    rw [lineOf_eq_countP, hall, ofSource, List.length_cons, length_startsAfter, Nat.add_sub_cancel]
  have hmin (last : Nat) (hl : source.utf8ByteSize ≤ last) :
      min last (ofSource source).source.utf8ByteSize = source.utf8ByteSize :=
    Nat.min_eq_right hl
  rw [position, position, hlast offset h, hlast _ (Nat.le_refl _), hmin offset h,
    hmin _ (Nat.le_refl _)]

/-- The positions of a text are exact. What stands between two characters is on the line that the line
feeds before it count, and as many characters into it as there are behind the last of these. The
position tells the offset again, so that no two offsets have the same one, and the order of positions
is that of the offsets. What is behind the end of the text stands where the text ends. -/
theorem position_exact (source : String) :
    (∀ before behind, source = String.ofList (before ++ behind) →
      (ofSource source).position (byteCount before) =
        ⟨before.count '\n', (before.rtakeWhile (· ≠ '\n')).length⟩) ∧
      (∀ offset ∈ boundaries source,
        (ofSource source).offset? ((ofSource source).position offset) = some offset) ∧
      Set.InjOn (ofSource source).position (boundaries source) ∧
      StrictMonoOn (fun offset => ((ofSource source).position offset).key) (boundaries source) ∧
      ∀ offset, source.utf8ByteSize ≤ offset → (ofSource source).position offset =
        ⟨source.toList.count '\n', (source.toList.rtakeWhile (· ≠ '\n')).length⟩ := by
  have hback : ∀ offset ∈ boundaries source,
      (ofSource source).offset? ((ofSource source).position offset) = some offset := by
    intro offset ho
    obtain ⟨before, behind, rfl, rfl⟩ := exists_of_isValid ho
    exact offset?_position before behind
  refine ⟨?_, hback, ?_, ?_, ?_⟩
  · rintro before behind rfl
    exact position_byteCount before behind
  · intro offset ho offset' ho' heq
    have hsome := hback offset ho
    rw [heq, hback offset' ho'] at hsome
    exact (Option.some.inj hsome).symm
  · intro offset ho offset' ho' hlt
    obtain ⟨before, behind, rfl, rfl⟩ := exists_of_isValid ho
    obtain ⟨more, behind', hmore, hsource, rfl⟩ := exists_further ho' hlt
    rw [hsource]
    exact key_position_lt before hmore behind'
  · intro offset ho
    have hend := position_byteCount source.toList []
    rw [List.append_nil, String.ofList_toList, ← utf8ByteSize_ofList, String.ofList_toList] at hend
    rw [position_of_le source ho, hend]

end LineMap

end JavaNames.Text
