/-
The outline of a file. Main statement: the text for the scopes of a file has one line for each scope, in
preorder and with the scopes in one scope in the order of their numbers; a line says which construct opens
the scope, where, and which names are in its table, in the order of declaration; and the scope around a
scope is the one of the nearest line above that is indented one step less.
-/
import JavaNames.Proofs.Analysis.Visits
import JavaNames.Proofs.Declaring.Ranges
import JavaNames.Proofs.Declaring.Reached
import JavaNames.Proofs.Text.Slice
import JavaNames.Proofs.Token.Spacing

namespace JavaNames

namespace ScopeTree

open Text (LineMap toList_pushn)

/-! ## Texts of one line -/

/-- There is no line feed in a text. -/
def Unbroken (text : String) : Prop := '\n' ∉ text.toList

instance (text : String) : Decidable (Unbroken text) :=
  inferInstanceAs (Decidable ('\n' ∉ text.toList))

theorem Unbroken.append {text other : String} (h : Unbroken text) (h' : Unbroken other) :
    Unbroken (text ++ other) := by
  rw [Unbroken, String.toList_append, List.mem_append]
  exact fun hm => hm.elim h h'

theorem Unbroken.intercalate {separator : String} (hs : Unbroken separator) {texts : List String}
    (h : ∀ text ∈ texts, Unbroken text) : Unbroken (separator.intercalate texts) := by
  induction texts with
  | nil => exact List.not_mem_nil
  | cons text texts ih =>
    obtain ⟨htext, htexts⟩ := List.forall_mem_cons.1 h
    cases texts with
    | nil => exact htext
    | cons other texts =>
      rw [String.intercalate_cons_cons]
      exact (htext.append hs).append (ih htexts)

theorem unbroken_toString (number : Nat) : Unbroken (toString number) :=
  Text.lineFeed_not_mem_toString number

/-- The number of blanks that a text begins with. -/
def indentation (text : String) : Nat := (text.toList.takeWhile (· = ' ')).length

/-- Blanks in front of a text that begins with none are its indentation. -/
theorem indentation_pushn (count : Nat) {text : String}
    (h : text.toList.takeWhile (· = ' ') = []) :
    indentation ("".pushn ' ' count ++ text) = count := by
  have hblank : ∀ c ∈ List.replicate count ' ', decide (c = ' ') = true := fun c hc =>
    decide_eq_true (List.eq_of_mem_replicate hc)
  rw [indentation, String.toList_append, toList_pushn, String.toList_empty, List.nil_append,
    List.takeWhile_append_of_pos hblank, h, List.append_nil, List.length_replicate]

/-! ## Rows -/

/-- A name in the row of its scope. -/
def nameText (symbol : Symbol) : String := symbol.name ++ ": " ++ symbol.kind.name

/-- Names in brackets, or nothing when there are none. -/
def bracketed : List String → String
  | [] => ""
  | names => " [" ++ ", ".intercalate names ++ "]"

/-- The row of a scope that begins at an offset and has these symbols. -/
def rowText (map : LineMap) (scope : Scope) (start : Nat) (symbols : List Symbol) : String :=
  let place := map.position start
  "".pushn ' ' (2 * scope.depth) ++ (scope.kind.name ++ " " ++ toString (place.line + 1) ++ ":" ++
    toString (place.character + 1) ++ bracketed (symbols.map nameText))

section

variable {unit : BoundUnit} {tree : Tree} {scope : Scope} {symbols : List Symbol}

/-- The symbols of the entries of a scope, in the order of its table, in which they have been declared and
come in the source. -/
structure Lists (unit : BoundUnit) (scope : Scope) (symbols : List Symbol) : Prop where
  entries : List.Forall₂ (fun entry symbol => unit.symbol? entry.symbol = some symbol ∧
    symbol.name = entry.name) scope.table.entries symbols
  rising : (BoundUnit.symbolsIn scope).Pairwise (· < ·)
  order : InOrder symbols

/-- The entries of a scope stand for symbols, each for one. -/
theorem lists_of_registers (hr : unit.Registers) (he : unit.Exact) {id : ScopeId}
    (hs : unit.scope? id = some scope) :
    Lists unit scope ((BoundUnit.symbolsIn scope).filterMap unit.symbol?) := by
  refine ⟨?_, hr.rising hs, he.positions hs⟩
  have hall := hr.symbol hs
  rw [BoundUnit.symbolsIn]
  generalize scope.table.entries = entries at hall ⊢
  induction entries with
  | nil => exact .nil
  | cons entry entries ih =>
    obtain ⟨⟨symbol, hsymbol, hname⟩, hrest⟩ := List.forall_mem_cons.1 hall
    rw [List.map_cons, List.filterMap_cons, hsymbol]
    exact .cons ⟨hsymbol, hname⟩ (ih hrest)

theorem Lists.nameTexts_eq (h : Lists unit scope symbols) :
    nameTexts unit scope = symbols.map nameText := by
  obtain ⟨hentries, -, -⟩ := h
  rw [nameTexts]
  generalize scope.table.entries = entries at hentries ⊢
  induction hentries with
  | nil => rfl
  | @cons entry symbol _ _ hsymbol _ ih =>
    rw [List.filterMap_cons, hsymbol.1, Option.map_some, ih, ← hsymbol.2]
    rfl

theorem Lists.line_eq (h : Lists unit scope symbols) {node : Node}
    (hn : tree.node? scope.node = some node) (map : LineMap) :
    line unit tree map scope = rowText map scope node.start symbols ++ "\n" := by
  have hnames : namesText unit scope = bracketed (symbols.map nameText) := by
    rw [namesText, h.nameTexts_eq]
    cases symbols <;> rfl
  rw [line, hn, hnames, rowText]
  simp only [Option.map_some, Option.getD_some, String.append_assoc]
  rfl

/-- A text is the row of a scope. -/
def Shows (unit : BoundUnit) (tree : Tree) (map : LineMap) (id : ScopeId) (text : String) : Prop :=
  ∃ scope node symbols, unit.scope? id = some scope ∧ tree.node? scope.node = some node ∧
    Lists unit scope symbols ∧ text = rowText map scope node.start symbols

theorem Shows.line_eq {map : LineMap} {id : ScopeId} {text : String} (h : Shows unit tree map id text) :
    (unit.scope? id).map (line unit tree map) = some (text ++ "\n") := by
  obtain ⟨scope, node, symbols, hs, hn, hlists, rfl⟩ := h
  rw [hs, Option.map_some, hlists.line_eq hn]

theorem indentation_rowText (map : LineMap) (scope : Scope) (start : Nat) (symbols : List Symbol) :
    indentation (rowText map scope start symbols) = 2 * scope.depth := by
  refine indentation_pushn _ ?_
  simp only [String.toList_append, List.append_assoc]
  cases scope.kind <;> rfl

theorem Shows.indentation_eq {map : LineMap} {id : ScopeId} {text : String}
    (h : Shows unit tree map id text) : indentation text = 2 * unit.depthOf id := by
  obtain ⟨scope, node, symbols, hs, -, -, rfl⟩ := h
  rw [indentation_rowText, BoundUnit.depthOf_eq hs]

theorem unbroken_bracketed {names : List String} (h : ∀ name ∈ names, Unbroken name) :
    Unbroken (bracketed names) := by
  cases names with
  | nil => decide
  | cons name names =>
    have hall : Unbroken (", ".intercalate (name :: names)) := .intercalate (by decide) h
    exact .append (.append (by decide) hall) (by decide)

theorem unbroken_rowText (map : LineMap) (scope : Scope) (start : Nat)
    (h : ∀ symbol ∈ symbols, Unbroken symbol.name) : Unbroken (rowText map scope start symbols) := by
  have hindent : Unbroken ("".pushn ' ' (2 * scope.depth)) := by
    rw [Unbroken, toList_pushn]
    exact fun hm => absurd (List.eq_of_mem_replicate hm) (by decide)
  have hkind : Unbroken scope.kind.name := by
    cases scope.kind <;> decide
  have hnames : Unbroken (bracketed (symbols.map nameText)) := by
    refine unbroken_bracketed (List.forall_mem_map.2 fun symbol hm => ?_)
    have hkind : Unbroken symbol.kind.name := by
      cases symbol.kind <;> decide
    exact .append (.append (h symbol hm) (by decide)) hkind
  refine hindent.append (.append ?_ hnames)
  refine .append (.append (.append (hkind.append ?_) (unbroken_toString _)) ?_) (unbroken_toString _)
  · decide
  · decide

end

/-! ## Outlines -/

/-- A scope with its text. -/
structure Row where
  id : ScopeId
  text : String

/-- Rows are the outline of a unit: one for each scope, in preorder and with the scopes in one scope in
the order of their numbers. Each says what opens the scope and what is in its table, on one line, and it is
indented by two blanks for each scope around it; so the scope around a scope is the nearest one above it
that is indented by two blanks less. -/
structure Outline (unit : BoundUnit) (tree : Tree) (map : LineMap) (rows : List Row) : Prop where
  once : (rows.map (·.id)).Perm (List.range unit.scopes.size)
  preorder : Preorder unit (rows.map (·.id))
  siblings : ∀ parent, ((rows.map (·.id)).filter fun id =>
    (unit.scope? id).map (·.parent) = some parent) = unit.scopeChildren parent
  shows : ∀ row ∈ rows, Shows unit tree map row.id row.text
  unbroken : ∀ row ∈ rows, Unbroken row.text
  indented : ∀ row ∈ rows, indentation row.text = 2 * unit.depthOf row.id
  outermost : ∀ row ∈ rows, indentation row.text = 0 ↔ row.id ∈ unit.scopeChildren none
  nearest : ∀ {before behind : List Row} {row : Row} {parent : ScopeId}, rows = before ++ row :: behind →
    row.id ∈ unit.scopeChildren (some parent) → ∃ outer above between,
      before = outer ++ above :: between ∧ above.id = parent ∧
        indentation row.text = indentation above.text + 2 ∧
        ∀ other ∈ between, indentation above.text < indentation other.text

section

variable {unit : BoundUnit} {tree : Tree} {map : LineMap} {limit : Nat}

/-- Rows for some scopes, and their lines. -/
theorem exists_rows {ids : List ScopeId}
    (h : ∀ id ∈ ids, ∃ text, Shows unit tree map id text ∧ Unbroken text) :
    ∃ rows : List Row, rows.map (·.id) = ids ∧
      (∀ row ∈ rows, Shows unit tree map row.id row.text ∧ Unbroken row.text) ∧
      (ids.filterMap fun id => (unit.scope? id).map (line unit tree map)) =
        rows.map fun row => row.text ++ "\n" := by
  induction ids with
  | nil => exact ⟨[], rfl, fun _ hm => absurd hm List.not_mem_nil, rfl⟩
  | cons id ids ih =>
    obtain ⟨⟨text, htext⟩, hids⟩ := List.forall_mem_cons.1 h
    obtain ⟨rows, hrows, hall, hlines⟩ := ih hids
    refine ⟨⟨id, text⟩ :: rows, congrArg (id :: ·) hrows, List.forall_mem_cons.2 ⟨htext, hall⟩, ?_⟩
    rw [List.filterMap_cons, htext.1.line_eq, hlines, List.map_cons]

theorem intercalate_eq_join (texts : List String) : "".intercalate texts = String.join texts := by
  induction texts with
  | nil => rfl
  | cons text texts ih =>
    cases texts with
    | nil => rw [String.intercalate_singleton, String.join_cons, String.join_nil, String.append_empty]
    | cons other texts =>
      rw [String.intercalate_cons_cons, ih, String.append_empty, String.join_cons (s := text)]

/-- A scope below another one in an outline. -/
theorem exists_above (hn : unit.Nested limit) {rows : List Row}
    (hp : Preorder unit (rows.map (·.id)))
    (hi : ∀ row ∈ rows, indentation row.text = 2 * unit.depthOf row.id) {before behind : List Row}
    {row : Row} {parent : ScopeId} (he : rows = before ++ row :: behind)
    (hc : row.id ∈ unit.scopeChildren (some parent)) : ∃ outer above between,
      before = outer ++ above :: between ∧ above.id = parent ∧
        indentation row.text = indentation above.text + 2 ∧
        ∀ other ∈ between, indentation above.text < indentation other.text := by
  have hdeeper : ∀ id, ∀ child ∈ unit.scopeChildren (some id),
      unit.depthOf child = unit.depthOf id + 1 := fun id child hm => (hn.of_mem_scopeChildren hm).2
  have hids : rows.map (·.id) = before.map (·.id) ++ row.id :: behind.map (·.id) := by
    rw [he, List.map_append, List.map_cons]
  -- what stands above the scope tells the rows above its row
  rcases hp.nearest hdeeper hids with hroot | ⟨outer, found, between, hbefore, hfound, hbetween⟩
  · cases BoundUnit.parent_unique hc hroot
  · obtain rfl := Option.some.inj (BoundUnit.parent_unique hc hfound)
    obtain ⟨outerRows, rest, rfl, rfl, hrest⟩ := List.map_eq_append_iff.1 hbefore
    obtain ⟨above, betweenRows, rfl, rfl, rfl⟩ := List.map_eq_cons_iff.1 hrest
    have hmem {other : Row} (hm : other ∈ above :: betweenRows) : other ∈ rows :=
      he ▸ List.mem_append_left _ (List.mem_append_right _ hm)
    refine ⟨outerRows, above, betweenRows, rfl, rfl, ?_, fun other ho => ?_⟩
    · rw [hi row (he ▸ List.mem_append_right _ (.head _)), hi above (hmem (.head _)), hdeeper _ _ hc]
      rfl
    · have hlt := hbetween other.id (List.mem_map_of_mem ho)
      rw [hi above (hmem (.head _)), hi other (hmem (.tail _ ho))]
      omega

end

/-! ## The outline of a file -/

section

variable {file text name : String} {unit : Grammar.SyntaxUnit} {options : BindOptions}
  {bound : BoundUnit} (h : Grammar.parse file text = .ok unit)
  (hb : unit.tree.bind unit.root name options = .ok bound)

include h hb

/-- A name is an identifier, and a line feed is a blank. -/
theorem unbroken_name {number : SymbolId} {symbol : Symbol}
    (hs : bound.symbol? number = some symbol) : Unbroken symbol.name := by
  obtain ⟨deeds, htold⟩ := Grammar.exists_told h hb
  obtain ⟨token, hwrites, -, htext⟩ := htold.exists_writes (Grammar.ranged_of_parse h) hs
  intro hfeed
  rw [← htext] at hfeed
  cases Token.not_isSpace_of_scan file text token hwrites.mem hwrites.kind _ hfeed

/-- Every scope has a row. -/
theorem exists_shows {id : ScopeId} {scope : Scope} (hs : bound.scope? id = some scope)
    (map : LineMap) : ∃ row, Shows bound unit.tree map id row ∧ Unbroken row := by
  obtain ⟨hregisters, hexact, -⟩ := Grammar.bind_exact h hb
  have hsound := Grammar.sound_of_parse h
  have hlt := (Grammar.reaches_scope h hb hs).lt_size hsound.root_lt hsound.wellFormed
  refine ⟨_, ⟨scope, _, _, hs, Array.getElem?_eq_getElem hlt, lists_of_registers hregisters hexact hs,
    rfl⟩, unbroken_rowText map scope _ fun symbol hm => ?_⟩
  obtain ⟨number, -, hsymbol⟩ := List.mem_filterMap.1 hm
  exact unbroken_name h hb hsymbol

/-- The text for the scopes of a file is its outline, row by row. -/
theorem render_outline : ∃ rows, Outline bound unit.tree (.ofSource text) rows ∧
    render bound unit.tree text = String.join (rows.map fun row => row.text ++ "\n") := by
  obtain ⟨root, hmoves⟩ := Tree.moves_of_bind hb
  have hn := hmoves.nested (BoundUnit.nested_empty _ _ _)
  have hpreorder := preorder_order hn
  have honce := hpreorder.perm_range hn
  obtain ⟨rows, hids, hrows, hlines⟩ := exists_rows fun id hm =>
    exists_shows h hb (Array.getElem?_eq_getElem (List.mem_range.1 (honce.mem_iff.1 hm))) (.ofSource text)
  rw [← hids] at honce hpreorder
  have hindented := fun row hm => (hrows row hm).1.indentation_eq
  refine ⟨rows, ⟨honce, hpreorder, hpreorder.siblings hn, fun row hm => (hrows row hm).1,
    fun row hm => (hrows row hm).2, hindented, fun row hm => ?_, exists_above hn hpreorder hindented⟩, ?_⟩
  · obtain ⟨scope, -, -, hs, -⟩ := (hrows row hm).1
    rw [hindented row hm, ← hn.depthOf_eq_zero_iff hs]
    omega
  · rw [render, hlines, intercalate_eq_join]

end

/-- A function in what a loop runs over: its scopes are found before the body of the loop, which stands
in front of them in the outline. -/
theorem render_outline_loop :
    ∃ (unit : Grammar.SyntaxUnit) (bound : BoundUnit),
      Grammar.parse "A.java" "class A { void f(int p) { for (int i : g(x -> { })) { } } }" = .ok unit ∧
      unit.tree.bind unit.root "A.java" {} = .ok bound ∧ order bound = [0, 1, 2, 3, 6, 4, 5] ∧
      ∃ rows, Outline bound unit.tree (.ofSource
          "class A { void f(int p) { for (int i : g(x -> { })) { } } }") rows ∧
        render bound unit.tree
            "class A { void f(int p) { for (int i : g(x -> { })) { } } }" =
          String.join (rows.map fun row => row.text ++ "\n") := by
  obtain ⟨unit, bound, h, hb, ht⟩ := Grammar.exists_bound_of (show ((Grammar.parse "A.java"
      "class A { void f(int p) { for (int i : g(x -> { })) { } } }").toOption.any fun unit =>
    (unit.tree.bind unit.root "A.java" {}).toOption.any fun bound =>
      order bound = [0, 1, 2, 3, 6, 4, 5]) = true by decide +kernel)
  exact ⟨unit, bound, h, hb, of_decide_eq_true ht, render_outline h hb⟩

end ScopeTree

end JavaNames
