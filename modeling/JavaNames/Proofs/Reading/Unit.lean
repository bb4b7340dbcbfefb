/-
Whole files. What a reader of a file leaves keeps every invariant, up to the root that it adds last.
Main statement: the store that reading a file leaves is a well-formed tree with the root as its last
node, before the nodes are told their parents.
-/
import JavaNames.Proofs.Reading.Declaration
import JavaNames.Proofs.Reading.Growth

namespace JavaNames.Grammar

/-! ## Everything but the root -/

/-- What a reader reads before it adds the root. -/
def Parse.parts : Parse (Option String × Parse.Contents) := do
  let package ← packageName
  let found ← contents (← readers)
  return (package, found)

/-- The root of a file. -/
def Input.root (input : Input) (parts : Option String × Parse.Contents) : Payload :=
  .compilationUnit input.file parts.1 parts.2.imports parts.2.types

theorem run_compilationUnit (input : Input) (s : State) :
    (Parse.compilationUnit.run input).run s =
      let (parts, t) := (Parse.parts.run input).run s
      (t.tree.size, t.add .compilationUnit 0 input.text.utf8ByteSize (input.root parts)) := rfl

theorem Reads.parts {ρ : Renaming} {known : Known} :
    Reads ρ known [] Parse.parts Parse.parts fun x y L =>
      y.2.types = x.2.types ∧ L = pieces .typeDeclaration 0 x.2.types := by
  unfold Parse.parts
  refine spell packageName fun package package' => .readers fun n => ?_
  refine bind (contents (agree_readersTo ρ n)) ?_
  rintro found found' _ ⟨ht, rfl⟩
  exact .ret ⟨ht, rfl⟩

/-- The state before a file is read. -/
def State.start (tokens : List Token) (diagnostics : List Diagnostic) : State :=
  ⟨tokens, 0, 0, .empty, diagnostics.toArray, 0, none⟩

/-- Two files that are alike leave states in which an invariant holds. -/
theorem Invariant.parts {ρ : Renaming} {input input' : Input} {I : State → State → List Item → Prop}
    (J : Invariant ρ input input' I) (hb : input'.budget = input.budget) {s s' : State}
    {R : List Item} (ha : s.Alike ρ s') (hd : s.depth = 0) (hI : I s s' R) :
    ∃ parts parts' t t', (Parse.parts.run input).run s = (parts, t) ∧
      (Parse.parts.run input').run s' = (parts', t') ∧ parts'.2.types = parts.2.types ∧
      t.depth = 0 ∧ t.Alike ρ t' ∧ I t t' (R ++ pieces .typeDeclaration 0 parts.2.types) := by
  have hreads : Reads ρ (fun _ => True) [] Parse.parts Parse.parts _ := .parts
  obtain ⟨_, ⟨ht, rfl⟩, hdepth, halike, hinv⟩ :=
    hreads.keeps J hb s s' R ha trivial (by rwa [List.map_nil, List.append_nil])
  rw [map_above_pieces, hd] at hinv
  exact ⟨_, _, _, _, rfl, rfl, ht, hdepth.trans hd, halike, hinv⟩

/-! ## The tree of a file -/

theorem State.Alike.refl (s : State) : s.Alike .id s := by
  refine ⟨.refl _, rfl, rfl, rfl, rfl, fun {_ node} h => ⟨node, h, rfl, rfl, ?_⟩⟩
  obtain ⟨kind, start, stop, parent, payload⟩ := node
  cases payload with
  | name n => exact .name n
  | _ => exact .same rfl

/-- The input for a list of tokens. -/
def Input.ofTokens (file text : String) (tokens : List Token) : Input :=
  ⟨file, text, text.utf8ByteSize, tokens.length + 1⟩

theorem ofTokens_eq {file text : String} {tokens : List Token} {diagnostics : List Diagnostic}
    {parts : Option String × Parse.Contents} {t : State}
    (h : (Parse.parts.run (.ofTokens file text tokens)).run (.start tokens diagnostics) = (parts, t)) :
    ofTokens file text tokens diagnostics =
      match t.tooDeep with
      | some offset => .error ⟨offset, maxNesting⟩
      | none => .ok ⟨file, text, (t.tree.add .compilationUnit 0 text.utf8ByteSize
          ((Input.ofTokens file text tokens).root parts)).linkParents t.tree.size, t.tree.size,
          t.diagnostics.toList⟩ := by
  have hrun := run_compilationUnit (.ofTokens file text tokens) (.start tokens diagnostics)
  rw [h, Input.ofTokens, State.start] at hrun
  simp only [ofTokens]
  rw [hrun]
  rfl

theorem Grows.start {input : Input} {tokens : List Token}
    (h : Token.Ordered input.stop 0 tokens) (diagnostics : List Diagnostic) :
    Grows input (.start tokens diagnostics) [.mark 0 0] := by
  refine ⟨h, .empty, fun hn => ?_, fun hm => ?_, fun hm => ?_, List.pairwise_singleton _ _⟩
  · exact absurd hn (by simp [State.start])
  · cases List.mem_singleton.1 hm
    exact Nat.zero_le _
  · cases List.mem_singleton.1 hm

/-- The root of a file takes in its types. -/
theorem Grows.root {input : Input} {s : State} {o' : Nat} {parts : Option String × Parse.Contents}
    (h : Grows input s (.mark 0 o' :: pieces .typeDeclaration 0 parts.2.types)) :
    (s.tree.add .compilationUnit 0 input.stop (input.root parts)).WellFormed := by
  have hg : (input.root parts).groups .compilationUnit =
      some [{ role := .typeDeclaration, links := parts.2.types }] := rfl
  have hpieces : (rooms .compilationUnit ++ groupPieces
      [{ role := .typeDeclaration, links := parts.2.types }]).map (Item.above 0) =
        pieces .typeDeclaration 0 parts.2.types := by
    simp [map_above_pieces]
  have hheld : Grows input s ([] ++ .mark 0 o' :: (rooms .compilationUnit ++ groupPieces
      [{ role := .typeDeclaration, links := parts.2.types }]).map (Item.above 0)) := by
    rw [hpieces]
    exact h
  refine h.wellFormed.add hg (hheld.takes ?_ h.tokens.le) (fun child hc => ?_) nofun
  · simp [Group.Filled]
  · refine h.free_of_place ?_
    rw [places_mark, ← hpieces, places_parts]
    exact .tail _ (List.mem_map_of_mem hc)

/-- The input for a text. -/
def Input.ofText (file text : String) : Input := .ofTokens file text (Token.scan file text).tokens

/-- The state before a text is read. -/
def State.ofText (file text : String) : State :=
  .start (Token.scan file text).tokens (Token.scan file text).diagnostics

/-- An invariant holds of what is read of a file before the root is added. -/
theorem Invariant.of_parse {file text : String} {unit : SyntaxUnit} (h : parse file text = .ok unit)
    {I : State → State → List Item → Prop}
    (J : Invariant .id (.ofText file text) (.ofText file text) I) (R : List Item)
    (hI : I (.ofText file text) (.ofText file text) R) :
    ∃ t parts, I t t (R ++ pieces .typeDeclaration 0 parts.2.types) ∧ t.depth = 0 ∧
      unit.root = t.tree.size ∧
      unit.tree = (t.tree.add .compilationUnit 0 text.utf8ByteSize
        ((Input.ofText file text).root parts)).linkParents unit.root ∧
      unit.diagnostics = t.diagnostics.toList := by
  obtain ⟨parts, parts', t, t', hrun, hrun', -, hd, -, hroot⟩ := J.parts rfl (.refl _) rfl hI
  rw [hrun'] at hrun
  obtain ⟨rfl, rfl⟩ := Prod.mk.inj hrun
  rw [parse, ofTokens_eq hrun'] at h
  split at h
  · cases h
  · cases h
    exact ⟨t', parts', hroot, hd, rfl, rfl, rfl⟩

theorem Grows.ofText (file text : String) :
    Grows (.ofText file text) (.ofText file text) [.mark 0 0] :=
  .start (Token.ordered_scan file text) _

/-- A file that has been read has a well-formed tree, whose last node is the root. -/
theorem exists_wellFormed {file text : String} {unit : SyntaxUnit} (h : parse file text = .ok unit) :
    ∃ (tree : Tree) (node : Node), tree.WellFormed ∧ tree.Unlinked ∧
      unit.tree = tree.linkParents unit.root ∧ tree.size = unit.root + 1 ∧
      tree.node? unit.root = some node ∧ node.kind = .compilationUnit := by
  obtain ⟨t, parts, hroot, -, hr, ht, -⟩ :=
    Invariant.of_parse h (Grows.invariant .id _ _) _ (Grows.ofText file text)
  refine ⟨_, ⟨.compilationUnit, 0, text.utf8ByteSize, none, (Input.ofText file text).root parts⟩,
    hroot.root, fun {id node} hn => ?_, ht, by simp [hr], ?_, rfl⟩
  · rw [Tree.node?_add] at hn
    split at hn
    · cases hn
      rfl
    · exact hroot.unlinked hn
  · rw [hr]
    exact Tree.node?_add_self _ _ _ _ _

end JavaNames.Grammar
