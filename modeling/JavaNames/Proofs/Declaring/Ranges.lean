/-
The ranges of the nodes of a file. Main statement: nodes start and stop between characters of the text,
at the tokens that they begin and end with; the children of a node do not overlap, and those that are not
empty stand inside it; and each name in the tree is one identifier of the text, so a symbol is declared
where its name is written.
-/
import JavaNames.Proofs.Declaring.Tables
import JavaNames.Proofs.Reading.Aligned
import JavaNames.Proofs.Token.Tiling
import JavaNames.Proofs.Tree.Places

namespace JavaNames

/-! ## Names and tokens -/

/-- A node starts and stops with a token. -/
def Tree.StandsOn (tree : Tree) (id : NodeId) (token : Token) : Prop :=
  ∃ node, tree.node? id = some node ∧ node.start = token.start ∧ node.stop = token.stop

/-- A node is an identifier of a text: it covers this token and no part of another, and its name is the
slice that it covers. -/
structure Tree.Writes (tree : Tree) (id : NodeId) (text : String) (tokens : List Token)
    (token : Token) : Prop where
  mem : token ∈ tokens
  kind : token.kind = .identifier
  standsOn : tree.StandsOn id token
  name : tree.name? id = some token.text
  slice : Text.slice? text token.start token.stop = some token.text
  only : ∀ other ∈ tokens, other.start < token.stop → token.start < other.stop → other = token

namespace Tree

variable {tree : Tree} {root id other : NodeId} {node node' : Node} {token : Token}

theorem name?_eq {text : String} (hn : tree.node? id = some node) (hk : node.kind.isName)
    (hp : node.payload = .name text) : tree.name? id = some text := by
  obtain ⟨kind, start, stop, parent, payload⟩ := node
  obtain rfl : payload = .name text := hp
  rw [name?, hn]
  exact if_pos hk

/-- Two names of a tree do not stand on one token. -/
theorem StandsOn.unique (hw : tree.WellFormed) (h : tree.StandsOn id token)
    (h' : tree.StandsOn other token) (hr : tree.Reaches root id) (hr' : tree.Reaches root other)
    (hn : tree.node? id = some node) (hn' : tree.node? other = some node') (hk : node.kind.isName)
    (hk' : node'.kind.isName) : other = id := by
  obtain ⟨found, hf, hstart, -⟩ := h
  obtain rfl := Option.some.inj (hf.symm.trans hn)
  obtain ⟨found', hf', hstart', -⟩ := h'
  obtain rfl := Option.some.inj (hf'.symm.trans hn')
  exact hr.eq_of_start hw hr' hf hf' hk hk' (hstart.trans hstart'.symm)

end Tree

namespace Grammar

variable {file text : String} {unit : SyntaxUnit}

/-! ## Ranges of a file -/

/-- The ranges of the nodes of a file. -/
structure SyntaxUnit.Ranged (unit : SyntaxUnit) (text : String) (tokens : List Token) : Prop where
  within : ∀ {id : NodeId} {node : Node}, unit.tree.node? id = some node →
    node.start ≤ node.stop ∧ node.stop ≤ text.utf8ByteSize ∧
      String.Pos.Raw.IsValid text ⟨node.start⟩ ∧ String.Pos.Raw.IsValid text ⟨node.stop⟩
  root : ∀ {node : Node}, unit.tree.node? unit.root = some node →
    node.start = 0 ∧ node.stop = text.utf8ByteSize
  aligned : ∀ {id : NodeId} {node : Node}, unit.tree.node? id = some node → id ≠ unit.root →
    (node.start = text.utf8ByteSize ∨ ∃ token ∈ tokens, token.start = node.start) ∧
      (node.stop = node.start ∨ ∃ token ∈ tokens, token.stop = node.stop)
  nested : ∀ {parent child : NodeId} {outer inner : Node}, unit.tree.Reaches unit.root parent →
    child ∈ unit.tree.children parent → unit.tree.node? parent = some outer →
    unit.tree.node? child = some inner → inner.start < inner.stop →
    outer.start ≤ inner.start ∧ inner.stop ≤ outer.stop
  apart : ∀ {parent child other : NodeId}, unit.tree.Reaches unit.root parent →
    child ∈ unit.tree.children parent → other ∈ unit.tree.children parent → child ≠ other →
    ∀ offset, ¬(unit.tree.Covers child offset ∧ unit.tree.Covers other offset)
  word : ∀ {id : NodeId} {node : Node}, unit.tree.Reaches unit.root id →
    unit.tree.node? id = some node → node.kind.isName →
    ∃ token, unit.tree.Writes id text tokens token
  once : ∀ {id other : NodeId} {node node' : Node} {token : Token}, token ∈ tokens →
    unit.tree.Reaches unit.root id → unit.tree.Reaches unit.root other →
    unit.tree.node? id = some node → unit.tree.node? other = some node' →
    node.kind.isName → node'.kind.isName →
    unit.tree.StandsOn id token → unit.tree.StandsOn other token → other = id

/-- A node that stands on whole tokens starts and stops between characters of the text. -/
theorem within_of_aligned {tokens : List Token} (hs : ∀ token ∈ tokens, token.StandsIn text)
    {node : Node} (h : node.Aligned text.utf8ByteSize tokens) :
    node.start ≤ node.stop ∧ node.stop ≤ text.utf8ByteSize ∧
      String.Pos.Raw.IsValid text ⟨node.start⟩ ∧ String.Pos.Raw.IsValid text ⟨node.stop⟩ := by
  have hstart : String.Pos.Raw.IsValid text ⟨node.start⟩ := by
    rcases h.start with he | ⟨token, ht, he⟩
    · rw [he]
      exact String.Pos.Raw.isValid_rawEndPos
    · exact he ▸ (hs token ht).start
  have hstop : String.Pos.Raw.IsValid text ⟨node.stop⟩ := by
    rcases h.stop with he | ⟨token, ht, he⟩
    · exact he ▸ hstart
    · exact he ▸ (hs token ht).stop
  exact ⟨h.le, String.Pos.Raw.le_iff.1 hstop.le_rawEndPos, hstart, hstop⟩

theorem ranged_of_parse (h : parse file text = .ok unit) :
    unit.Ranged text (Token.scan file text).tokens := by
  have hs := sound_of_parse h
  have hw := hs.wellFormed
  have ho := Token.ordered_scan file text
  have hstands := Token.standsIn_scan file text
  have haligned {id : NodeId} {node : Node} (hn : unit.tree.node? id = some node)
      (hne : id ≠ unit.root) : node.Aligned text.utf8ByteSize (Token.scan file text).tokens := by
    simpa [hne] using aligned_of_parse h hn
  have hroot {node : Node} (hn : unit.tree.node? unit.root = some node) :
      node.kind.isName = false ∧ node.start = 0 ∧ node.stop = text.utf8ByteSize := by
    simpa using aligned_of_parse h hn
  refine
    { within := fun {id node} hn => ?_
      root := fun hn => (hroot hn).2
      aligned := fun hn hne => ⟨(haligned hn hne).start, (haligned hn hne).stop⟩
      nested := fun _ hc hout hin hlt => hw.span_child hout hc ((Tree.mem_span? hin).2 ⟨hlt, rfl⟩)
      apart := fun _ hc hc' hne _ hboth => hne (hw.eq_of_covers hc hc' hboth.1 hboth.2)
      word := fun {id node} _ hn hk => ?_
      once := fun _ hr hr' hn hn' hk hk' hon hon' => hon.unique hw hon' hr hr' hn hn' hk hk' }
  · by_cases hne : id = unit.root
    · subst hne
      obtain ⟨-, hstart, hstop⟩ := hroot hn
      rw [hstart, hstop]
      exact ⟨Nat.zero_le _, Nat.le_refl _, String.Pos.Raw.isValid_zero, String.Pos.Raw.isValid_rawEndPos⟩
    · exact within_of_aligned hstands (haligned hn hne)
  · have hne : id ≠ unit.root := by
      rintro rfl
      exact absurd hk (by simp [(hroot hn).1])
    obtain ⟨token, ht, hident, hstart, hstop, hp⟩ := (haligned hn hne).word hk
    exact ⟨token, ht, hident, ⟨node, hn, hstart.symm, hstop.symm⟩, Tree.name?_eq hn hk hp,
      (hstands token ht).text, fun _ => ho.eq_of_overlap ht⟩

/-- A symbol has the position of the identifier that is its name. -/
theorem Told.exists_writes {bound : BoundUnit} {deeds : List Deed} {tokens : List Token}
    (h : Told unit bound deeds) (hr : unit.Ranged text tokens) {number : SymbolId} {symbol : Symbol}
    (hs : bound.symbol? number = some symbol) :
    ∃ token, unit.tree.Writes symbol.declaration text tokens token ∧ token.start = symbol.position ∧
      token.text = symbol.name := by
  have hreaches := h.reaches_declaration hs
  obtain ⟨deed, -, hm, rfl, -⟩ := h.exists_deed hs
  obtain ⟨word, hword, hk, hposition⟩ := h.words deed hm
  obtain ⟨token, hwrites⟩ := hr.word hreaches hword hk
  refine ⟨token, hwrites, ?_, ?_⟩
  · obtain ⟨found, hf, hstart, -⟩ := hwrites.standsOn
    obtain rfl := Option.some.inj (hf.symm.trans hword)
    rw [hposition, hstart]
  · exact Option.some.inj (hwrites.name.symm.trans (h.names deed hm))

/-- The ranges of the nodes of a file fit its tokens and one another, and a symbol of the file has the
position of the identifier in the text that is its name. -/
theorem parse_ranged (h : parse file text = .ok unit) :
    unit.Ranged text (Token.scan file text).tokens ∧
      ∀ (name : String) (options : BindOptions) (bound : BoundUnit),
        unit.tree.bind unit.root name options = .ok bound →
        ∀ (number : SymbolId) (symbol : Symbol), bound.symbol? number = some symbol →
          ∃ token, unit.tree.Writes symbol.declaration text (Token.scan file text).tokens token ∧
            token.start = symbol.position ∧ token.text = symbol.name := by
  have hr := ranged_of_parse h
  refine ⟨hr, fun name options bound hb number symbol hs => ?_⟩
  obtain ⟨deeds, htold⟩ := exists_told h hb
  exact htold.exists_writes hr hs

/-- Names of letters that take more than one byte, and bodies without an end. -/
theorem parse_ranged_open :
    ∃ unit bound, parse "A.java" "class Ä \x7b int ö = a.b.class; void f(int[] ö) \x7b if (ö.x" =
        .ok unit ∧
      unit.tree.bind unit.root "A.java" {} = .ok bound ∧
      unit.Ranged "class Ä \x7b int ö = a.b.class; void f(int[] ö) \x7b if (ö.x"
        (Token.scan "A.java" "class Ä \x7b int ö = a.b.class; void f(int[] ö) \x7b if (ö.x").tokens ∧
      ∀ (number : SymbolId) (symbol : Symbol), bound.symbol? number = some symbol →
        ∃ token, unit.tree.Writes symbol.declaration
            "class Ä \x7b int ö = a.b.class; void f(int[] ö) \x7b if (ö.x"
            (Token.scan "A.java" "class Ä \x7b int ö = a.b.class; void f(int[] ö) \x7b if (ö.x").tokens
            token ∧ token.start = symbol.position ∧ token.text = symbol.name := by
  obtain ⟨unit, bound, h, hb⟩ := exists_bound (show ((parse "A.java"
      "class Ä \x7b int ö = a.b.class; void f(int[] ö) \x7b if (ö.x").toOption.any fun unit =>
    (unit.tree.bind unit.root "A.java" {}).isOk) = true by decide +kernel)
  obtain ⟨hr, hsymbols⟩ := parse_ranged h
  exact ⟨unit, bound, h, hb, hr, hsymbols _ _ _ hb⟩

end Grammar

end JavaNames
