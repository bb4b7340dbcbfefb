/-
The tables of a file are exact. Main statement: in the unit that is found for a source, each entry of a
table stands for a symbol that has been declared in its scope; the entries come in the order of
declaration, which is the order of the source; the symbol that is held for a name is the first one of the
name; and the nodes of a declared name lead to its symbol, unless it is a component that a compact
constructor has as a parameter.
-/
import JavaNames.Proofs.Declaring.Home

namespace JavaNames

/-- Where each name has one entry, a name is held for the symbol of its entry. -/
theorem Table.symbol?_of_mem {table : Table} (hd : (table.entries.map (·.name)).Nodup) {entry : Entry}
    (he : entry ∈ table.entries) : table.symbol? entry.name = some entry.symbol := by
  have hsome : (table.entries.find? fun other => other.name = entry.name).isSome :=
    List.find?_isSome.2 ⟨entry, he, decide_eq_true rfl⟩
  obtain ⟨found, hf⟩ := Option.isSome_iff_exists.1 hsome
  have hname := List.find?_some hf
  obtain rfl : found = entry :=
    List.inj_on_of_nodup_map hd (List.mem_of_find?_eq_some hf) he (of_decide_eq_true hname)
  rw [symbol?, find?, hf, Option.map_some]

/-- A name has nothing below it, so it declares nothing. -/
theorem Tree.WellFormed.declaredName_eq_none {tree : Tree} (hw : tree.WellFormed) {name : NodeId}
    {word : Node} (hn : tree.node? name = some word) (hk : word.kind.isName) :
    word.payload.declaredName = none := by
  obtain ⟨groups, hg, -⟩ := hw.takes hn
  obtain ⟨kind, start, stop, parent, payload⟩ := word
  cases kind <;> cases hk
  all_goals cases payload <;> first | rfl | cases hg

namespace BoundUnit

/-! ## Exact units -/

/-- Entries are entries of what has been declared in their scope, and of two symbols of one scope the one
with the smaller number comes first in the source. -/
structure Exact (unit : BoundUnit) : Prop where
  entry : ∀ {id : ScopeId} {scope : Scope}, unit.scope? id = some scope →
    ∀ entry ∈ scope.table.entries, ∃ symbol, unit.symbol? entry.symbol = some symbol ∧
      symbol.name = entry.name ∧ symbol.visibleFrom = entry.visibleFrom ∧ unit.home? symbol = some id
  order : ∀ {number later : SymbolId} {symbol other : Symbol}, unit.symbol? number = some symbol →
    unit.symbol? later = some other → unit.home? symbol = unit.home? other → number < later →
    symbol.position < other.position
  positions : ∀ {id : ScopeId} {scope : Scope}, unit.scope? id = some scope →
    InOrder ((symbolsIn scope).filterMap unit.symbol?)
  first : ∀ {number : SymbolId} {symbol : Symbol}, unit.symbol? number = some symbol →
    ∃ id scope held earliest, unit.home? symbol = some id ∧ unit.scope? id = some scope ∧
      scope.table.symbol? symbol.name = some held ∧ held ≤ number ∧
      unit.symbol? held = some earliest ∧ earliest.name = symbol.name ∧
      unit.home? earliest = some id ∧ earliest.position ≤ symbol.position

/-- The node of a declared name and the node that declares it lead to the symbol, and nothing leads to a
component as a parameter of a compact constructor. -/
structure Declares (unit : BoundUnit) (tree : Tree) : Prop where
  declared : ∀ {number : SymbolId} {symbol : Symbol}, unit.symbol? number = some symbol →
    symbol.kind ≠ .recordComponentParameter →
    unit.declaredBy? symbol.declaration = some number ∧
      ∃ declaring, tree.parent? symbol.declaration = some declaring ∧
        unit.declaredBy? declaring = some number
  borrowed : ∀ {node : NodeId} {number : SymbolId}, unit.declaredBy? node = some number →
    ∃ symbol, unit.symbol? number = some symbol ∧ symbol.kind ≠ .recordComponentParameter

end BoundUnit

/-! ## Histories of files -/

namespace Grammar

variable {file text name : String} {unit : SyntaxUnit} {options : BindOptions} {bound : BoundUnit}

/-- The history of the unit that is found for a file. -/
structure Told (unit : SyntaxUnit) (bound : BoundUnit) (deeds : List Deed) : Prop where
  sound : unit.Sound
  records : bound.Records deeds
  locates : ∀ deed ∈ deeds, bound.Locates unit.tree unit.root deed
  words : ∀ deed ∈ deeds, ∃ word, unit.tree.node? deed.symbol.declaration = some word ∧
    word.kind.isName ∧ deed.symbol.position = word.start
  names : ∀ deed ∈ deeds, unit.tree.name? deed.symbol.declaration = some deed.symbol.name
  scopes : ∀ deed ∈ deeds, deed.scope.isSome
  order : ∀ number, InOrder (Deed.symbolsIn number deeds)

/-- The walk over a file and the history that it leaves. -/
theorem exists_history (h : parse file text = .ok unit)
    (hb : unit.tree.bind unit.root name options = .ok bound) : ∃ deeds,
      Logs options unit.tree [(unit.root, .top)] (.empty name unit.root) deeds bound ∧
        Told unit bound deeds := by
  have hs := sound_of_parse h
  obtain ⟨deeds, hlogs⟩ := (binds_of_parse h hb).exists_logs
  have hr := SyntaxUnit.ready_root hs name
  have ha := anchored_of_parse h hb
  have hrecords := hlogs.records hr.awaits.knows (BoundUnit.records_empty name unit.root)
  exact ⟨deeds, hlogs, hs, hrecords, fun _ => hlogs.located hs hr ha, fun _ => hlogs.exists_word hs hr,
    fun _ => hlogs.name?_eq hs hr, fun _ => hlogs.isSome_scope hs hr, fun number => hlogs.inOrder hs hr (Nat.zero_le number)⟩

theorem exists_told (h : parse file text = .ok unit)
    (hb : unit.tree.bind unit.root name options = .ok bound) : ∃ deeds, Told unit bound deeds := by
  obtain ⟨deeds, -, htold⟩ := exists_history h hb
  exact ⟨deeds, htold⟩

namespace Told

variable {deeds : List Deed}

theorem exists_deed (h : Told unit bound deeds) {number : SymbolId} {symbol : Symbol}
    (hs : bound.symbol? number = some symbol) :
    ∃ deed, deeds[number]? = some deed ∧ deed ∈ deeds ∧ deed.symbol = symbol ∧
      bound.home? symbol = deed.scope := by
  rw [h.records.symbol?_eq] at hs
  obtain ⟨deed, hd, rfl⟩ := Option.map_eq_some_iff.1 hs
  have hm := List.mem_of_getElem? hd
  exact ⟨deed, hd, hm, rfl, (h.locates deed hm).home?_eq⟩

/-- What is declared is declared below the root. -/
theorem reaches_declaration (h : Told unit bound deeds) {number : SymbolId} {symbol : Symbol}
    (hs : bound.symbol? number = some symbol) : unit.tree.Reaches unit.root symbol.declaration := by
  obtain ⟨deed, -, hm, rfl, -⟩ := h.exists_deed hs
  exact (h.locates deed hm).reaches_declaration

/-- What is recorded is recorded for nodes below the root. -/
theorem reaches_node (h : Told unit bound deeds) {node : NodeId} {number : SymbolId}
    (hd : bound.declaredBy? node = some number) : unit.tree.Reaches unit.root node := by
  obtain ⟨deed, declaring, hf, hdeclaring, hnode⟩ := h.records.nodes hd
  have hlocates := h.locates deed (List.mem_of_getElem? hf)
  rcases hnode with rfl | rfl
  · exact hlocates.reaches_declaration
  · exact hlocates.reaches_declaring hdeclaring

/-- Of two deeds for one scope the earlier one comes first in the source. -/
theorem position_lt (h : Told unit bound deeds) {number later : SymbolId} {deed other : Deed}
    (hd : deeds[number]? = some deed) (ho : deeds[later]? = some other)
    (hscope : deed.scope = other.scope) (hlt : number < later) :
    deed.symbol.position < other.symbol.position := by
  obtain ⟨id, hid⟩ := Option.isSome_iff_exists.1 (h.scopes deed (List.mem_of_getElem? hd))
  have horder := h.order id
  rw [Deed.symbolsIn, InOrder, List.pairwise_map, List.pairwise_filter,
    List.pairwise_iff_getElem] at horder
  obtain ⟨hn, rfl⟩ := List.getElem?_eq_some_iff.1 hd
  obtain ⟨hl, rfl⟩ := List.getElem?_eq_some_iff.1 ho
  exact horder number later hn hl hlt (decide_eq_true hid) (decide_eq_true (hscope ▸ hid))

/-- Two deeds for one name would be deeds for one scope at one position. -/
theorem eq_of_declaration (h : Told unit bound deeds) {number other : SymbolId} {deed found : Deed}
    (hd : deeds[number]? = some deed) (hf : deeds[other]? = some found)
    (he : deed.symbol.declaration = found.symbol.declaration) (hscope : deed.scope = found.scope) :
    other = number := by
  obtain ⟨word, hword, -, hposition⟩ := h.words deed (List.mem_of_getElem? hd)
  obtain ⟨word', hword', -, hposition'⟩ := h.words found (List.mem_of_getElem? hf)
  rw [he] at hword
  obtain rfl := Option.some.inj (hword.symm.trans hword')
  rcases Nat.lt_trichotomy other number with hlt | he | hlt
  · have hbefore := h.position_lt hf hd hscope.symm hlt
    omega
  · exact he
  · have hbefore := h.position_lt hd hf hscope hlt
    omega

/-- No two deeds are recorded for one node. -/
theorem unique (h : Told unit bound deeds) {number other : SymbolId} {deed found : Deed}
    {declaring declaring' node : NodeId} (hd : deeds[number]? = some deed)
    (hf : deeds[other]? = some found) (hdeclaring : deed.declaring = some declaring)
    (hdeclaring' : found.declaring = some declaring')
    (hnode : node = deed.symbol.declaration ∨ node = declaring)
    (hnode' : node = found.symbol.declaration ∨ node = declaring') : other = number := by
  have hm := List.mem_of_getElem? hd
  have hm' := List.mem_of_getElem? hf
  obtain ⟨word, hword, hk, -⟩ := h.words deed hm
  obtain ⟨word', hword', hk', -⟩ := h.words found hm'
  have hw := h.sound.wellFormed
  cases h.locates deed hm with
  | borrowed _ hnone => rw [hnone] at hdeclaring; cases hdeclaring
  | declared _ hchild hname hdeclares _ hscope =>
    obtain rfl := Option.some.inj (hdeclares.symm.trans hdeclaring)
    cases h.locates found hm' with
    | borrowed _ hnone => rw [hnone] at hdeclaring'; cases hdeclaring'
    | declared _ hchild' hname' hdeclares' _ hscope' =>
      obtain rfl := Option.some.inj (hdeclares'.symm.trans hdeclaring')
      have same (he : deed.symbol.declaration = found.symbol.declaration) : other = number :=
        h.eq_of_declaration hd hf he (by rw [← hscope, ← hscope', he])
      -- a name declares nothing, so it is not the node that declares another name
      rcases hnode with rfl | rfl <;> rcases hnode' with he | rfl
      · exact same he
      · obtain rfl := Option.some.inj (hchild'.symm.trans hword)
        rw [hw.declaredName_eq_none hword hk] at hname'
        cases hname'
      · subst he
        obtain rfl := Option.some.inj (hchild.symm.trans hword')
        rw [hw.declaredName_eq_none hword' hk'] at hname
        cases hname
      · obtain rfl := Option.some.inj (hchild.symm.trans hchild')
        exact same (Option.some.inj (hname.symm.trans hname'))

/-- An entry of a table stands for a symbol whose home is the scope of the table. -/
theorem exists_entry (h : Told unit bound deeds) {id : ScopeId} {scope : Scope}
    (hs : bound.scope? id = some scope) {entry : Entry} (he : entry ∈ scope.table.entries) :
    ∃ symbol, bound.symbol? entry.symbol = some symbol ∧ symbol.name = entry.name ∧
      symbol.visibleFrom = entry.visibleFrom ∧ bound.home? symbol = some id := by
  obtain ⟨deed, hd, hscope, hname, hvisible⟩ := h.records.entries hs entry he
  refine ⟨deed.symbol, ?_, hname, hvisible, ?_⟩
  · rw [h.records.symbol?_eq, hd]
    rfl
  · rw [(h.locates deed (List.mem_of_getElem? hd)).home?_eq, hscope]

/-- Of two symbols with one home the earlier one comes first in the source. -/
theorem position_lt_of_home (h : Told unit bound deeds) {number later : SymbolId} {symbol other : Symbol}
    (hs : bound.symbol? number = some symbol) (ho : bound.symbol? later = some other)
    (hhome : bound.home? symbol = bound.home? other) (hlt : number < later) :
    symbol.position < other.position := by
  obtain ⟨deed, hd, -, rfl, hscope⟩ := h.exists_deed hs
  obtain ⟨found, hf, -, rfl, hscope'⟩ := h.exists_deed ho
  exact h.position_lt hd hf (hscope.symm.trans (hhome.trans hscope')) hlt

theorem exact (h : Told unit bound deeds) (hr : bound.Registers) : bound.Exact := by
  refine ⟨fun hs _ => h.exists_entry hs, h.position_lt_of_home, fun {id scope} hs => ?_, fun {number symbol} hs => ?_⟩
  · refine List.pairwise_filterMap.2 ((hr.rising hs).imp_of_mem ?_)
    intro number later hm hl hlt symbol hsymbol other hother
    have hhome {number : SymbolId} {symbol : Symbol} (hm : number ∈ BoundUnit.symbolsIn scope)
        (hsymbol : bound.symbol? number = some symbol) : bound.home? symbol = some id := by
      obtain ⟨entry, he, rfl⟩ := List.mem_map.1 hm
      obtain ⟨found, hf, -, -, hhome⟩ := h.exists_entry hs he
      obtain rfl := Option.some.inj (hf.symm.trans hsymbol)
      exact hhome
    exact h.position_lt_of_home hsymbol hother ((hhome hm hsymbol).trans (hhome hl hother).symm) hlt
  · obtain ⟨deed, hd, hm, rfl, hscope⟩ := h.exists_deed hs
    obtain ⟨id, hid⟩ := Option.isSome_iff_exists.1 (h.scopes deed hm)
    obtain ⟨scope, hfound, entry, he, hname, hle⟩ := h.records.first hd hid
    obtain ⟨earliest, hearliest, hname', -, hhome⟩ := h.exists_entry hfound he
    refine ⟨id, scope, entry.symbol, earliest, hscope.trans hid, hfound, ?_, hle, hearliest,
      hname'.trans hname, hhome, ?_⟩
    · rw [← hname]
      exact Table.symbol?_of_mem (hr.names hfound) he
    · rcases Nat.lt_or_eq_of_le hle with hlt | heq
      · exact Nat.le_of_lt (h.position_lt_of_home hearliest hs (hhome.trans (hscope.trans hid).symm) hlt)
      · rw [heq, hs] at hearliest
        exact Nat.le_of_eq (congrArg Symbol.position (Option.some.inj hearliest).symm)

theorem declares (h : Told unit bound deeds) : bound.Declares unit.tree := by
  refine ⟨fun {number symbol} hs hk => ?_, fun {node number} hd => ?_⟩
  · obtain ⟨deed, hd, hm, rfl, -⟩ := h.exists_deed hs
    cases h.locates deed hm with
    | borrowed _ _ hk' => exact absurd hk' hk
    | @declared child node hreaches hchild hname hdeclares =>
      have hrecorded {node : NodeId} (hnode : node = deed.symbol.declaration ∨ node = child) :
          bound.declaredBy? node = some number := by
        obtain ⟨other, ho⟩ := Option.isSome_iff_exists.1 (h.records.recorded hm hdeclares hnode)
        obtain ⟨found, declaring, hf, hdeclaring, hnode'⟩ := h.records.nodes ho
        rw [ho, h.unique hd hf hdeclares hdeclaring hnode hnode']
      refine ⟨hrecorded (.inl rfl), child, h.sound.parent hreaches ?_, hrecorded (.inr rfl)⟩
      rw [Tree.children_eq hchild]
      exact Tree.mem_children_of_declaredName hname
  · obtain ⟨deed, declaring, hf, hdeclaring, -⟩ := h.records.nodes hd
    refine ⟨deed.symbol, by rw [h.records.symbol?_eq, hf]; rfl, ?_⟩
    cases h.locates deed (List.mem_of_getElem? hf) with
    | borrowed _ hnone =>
      rw [hnone] at hdeclaring
      cases hdeclaring
    | declared _ _ _ _ hk => exact hk

end Told

/-- In the unit that is found for a source, the tables are exact. -/
theorem bind_exact (h : parse file text = .ok unit)
    (hb : unit.tree.bind unit.root name options = .ok bound) :
    bound.Registers ∧ bound.Exact ∧ bound.Declares unit.tree := by
  obtain ⟨deeds, htold⟩ := exists_told h hb
  obtain ⟨root, hmoves⟩ := Tree.moves_of_bind hb
  have hr := hmoves.registers (BoundUnit.registers_empty _ _)
  exact ⟨hr, htold.exact hr, htold.declares⟩

/-- A record with a compact constructor, and names that are declared twice. -/
theorem bind_exact_record :
    ∃ unit bound, parse "R.java"
        "record R(int a, int a) { R { int b = a, b; } void f(int c, int c) { } }" = .ok unit ∧
      unit.tree.bind unit.root "R.java" {} = .ok bound ∧
      bound.Registers ∧ bound.Exact ∧ bound.Declares unit.tree := by
  obtain ⟨unit, bound, h, hb⟩ := exists_bound (show ((parse "R.java"
      "record R(int a, int a) { R { int b = a, b; } void f(int c, int c) { } }").toOption.any
    fun unit => (unit.tree.bind unit.root "R.java" {}).isOk) = true by decide +kernel)
  exact ⟨unit, bound, h, hb, bind_exact h hb⟩

end Grammar

end JavaNames
