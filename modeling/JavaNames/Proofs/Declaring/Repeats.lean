/-
How often a name that is declared twice is reported. A name is declared once in each scope that it is
declared in, and only the components of a record are declared in several: as fields of the record, and
once more as parameters of each of its compact constructors. Main statement: no two diagnostics start at
one offset, unless they are for one component of a record in different constructs.
-/
import JavaNames.Proofs.Declaring.Duplicates
import JavaNames.Proofs.Declaring.Owners

namespace JavaNames

/-! ## One name in several scopes -/

/-- A symbol is a component of a record: a field of the record, or a parameter of one of its compact
constructors. -/
inductive Tree.HasComponent (tree : Tree) (record : NodeId) (symbol : Symbol) : Prop
  | field : symbol.kind = .recordComponentField → symbol.owner = some record →
    HasComponent tree record symbol
  | parameter {constructor : NodeId} : symbol.kind = .recordComponentParameter →
    symbol.owner = some constructor → tree.parent? constructor = some record →
    tree.kind? constructor = some .compactConstructorDeclaration → HasComponent tree record symbol

/-- One component in one construct is declared in one scope. -/
theorem Tree.HasComponent.home?_eq {tree : Tree} (hr : tree.Rising) {record : NodeId}
    {symbol other : Symbol} (h : tree.HasComponent record symbol) (h' : tree.HasComponent record other)
    (hd : other.declaration = symbol.declaration) (ho : symbol.owner = other.owner)
    (bound : BoundUnit) : bound.home? symbol = bound.home? other := by
  -- a constructor of the record is not the record
  have differ {constructor : NodeId} (hp : tree.parent? constructor = some record) :
      constructor ≠ record := Nat.ne_of_lt (hr hp).1
  rw [BoundUnit.home?, BoundUnit.home?, hd, ho]
  cases h with
  | field hk howner =>
    cases h' with
    | field hk' _ => rw [hk, hk']
    | parameter _ howner' hp _ =>
      exact absurd (Option.some.inj (howner'.symm.trans (ho.symm.trans howner))) (differ hp)
  | parameter hk howner hp _ =>
    cases h' with
    | field _ howner' =>
      exact absurd (Option.some.inj (howner.symm.trans (ho.trans howner'))) (differ hp)
    | parameter hk' _ _ _ => rw [hk, hk']

/-- Whatever else stands for the name of a component that is a parameter of a compact constructor is the
same component of the record. -/
theorem Tree.Ascribes.exists_record {tree : Tree} {name owner owner' : NodeId} {symbol other : Symbol}
    {set set' : Modifiers} (hk : symbol.kind = .recordComponentParameter)
    (ho : symbol.owner = some owner) (ho' : other.owner = some owner')
    (h : tree.Ascribes name symbol.kind owner set) (h' : tree.Ascribes name other.kind owner' set') :
    ∃ record, tree.HasComponent record symbol ∧ tree.HasComponent record other := by
  generalize hkind : other.kind = kind at h'
  rw [hk] at h
  cases h with
  | componentParameter hsite _ hp hc =>
    refine ⟨_, .parameter hk ho hp hc, ?_⟩
    cases h' with
    | component hsite' _ =>
      obtain ⟨-, rfl, -⟩ := hsite.unique hsite'
      exact .field hkind ho'
    | componentParameter hsite' _ hp' hc' =>
      obtain ⟨-, rfl, -⟩ := hsite.unique hsite'
      exact .parameter hkind ho' hp' hc'
    | constant hsite' => cases (hsite.unique hsite').1
    | parameter hsite' | lambdaParameter hsite' | caught hsite' | element hsite' | resource hsite'
    | field hsite' | localVariable hsite' => cases (hsite.unique hsite').2.2

namespace Grammar

variable {file text name : String} {unit : SyntaxUnit} {options : BindOptions} {bound : BoundUnit}
  {deeds : List Deed} {number later : SymbolId} {symbol other : Symbol}

/-- Symbols at one offset are declared by one name. -/
theorem Told.declaration_eq (h : Told unit bound deeds) (hs : bound.symbol? number = some symbol)
    (ho : bound.symbol? later = some other) (hp : symbol.position = other.position) :
    other.declaration = symbol.declaration := by
  obtain ⟨deed, -, hm, rfl, -⟩ := h.exists_deed hs
  obtain ⟨found, -, hm', rfl, -⟩ := h.exists_deed ho
  obtain ⟨word, hn, hk, hstart⟩ := h.words deed hm
  obtain ⟨word', hn', hk', hstart'⟩ := h.words found hm'
  exact (h.reaches_declaration hs).eq_of_start h.sound.wellFormed (h.reaches_declaration ho) hn hn' hk hk'
    (hstart.symm.trans (hp.trans hstart'))

/-- A name is declared once in a scope. -/
theorem Told.eq_of_home (h : Told unit bound deeds) (hs : bound.symbol? number = some symbol)
    (ho : bound.symbol? later = some other) (hd : other.declaration = symbol.declaration)
    (hh : bound.home? symbol = bound.home? other) : later = number := by
  obtain ⟨deed, hdeed, -, rfl, hscope⟩ := h.exists_deed hs
  obtain ⟨found, hfound, -, rfl, hscope'⟩ := h.exists_deed ho
  exact h.eq_of_declaration hdeed hfound hd.symm (hscope.symm.trans (hh.trans hscope'))

/-- Two symbols of one name are one component of a record in different constructs. -/
theorem exists_record (h : parse file text = .ok unit)
    (hb : unit.tree.bind unit.root name options = .ok bound) (hs : bound.symbol? number = some symbol)
    (ho : bound.symbol? later = some other) (hne : number ≠ later)
    (hd : other.declaration = symbol.declaration) :
    symbol.owner ≠ other.owner ∧
      ∃ record, unit.tree.HasComponent record symbol ∧ unit.tree.HasComponent record other := by
  obtain ⟨deeds, htold⟩ := exists_told h hb
  have hhome : bound.home? symbol ≠ bound.home? other :=
    fun hh => hne (htold.eq_of_home hs ho hd hh).symm
  obtain ⟨owner, howner, hascribed⟩ := exists_ascribed h hb hs
  obtain ⟨owner', howner', hascribed'⟩ := exists_ascribed h hb ho
  rw [hd] at hascribed'
  have hrecord : ∃ record, unit.tree.HasComponent record symbol ∧
      unit.tree.HasComponent record other := by
    by_cases hk : symbol.kind = .recordComponentParameter
    · exact hascribed.exists_record hk howner howner' hascribed'
    by_cases hk' : other.kind = .recordComponentParameter
    · obtain ⟨record, ho, hs⟩ := hascribed'.exists_record hk' howner' howner hascribed
      exact ⟨record, hs, ho⟩
    -- both stand in the scope of the name
    rw [BoundUnit.home?, BoundUnit.home?, if_neg hk, if_neg hk', hd] at hhome
    exact absurd rfl hhome
  obtain ⟨record, hs, ho⟩ := hrecord
  exact ⟨fun he => hhome (hs.home?_eq htold.sound.rising ho hd he bound), record, hs, ho⟩

/-! ## Reports at one offset -/

/-- Where duplicates are reported, each symbol in no table is reported once. Two diagnostics that start
at one offset are for one component of a record, which is declared in the record and in each of its
compact constructors; all others start at different offsets. -/
theorem bind_diagnostics_apart (h : parse file text = .ok unit)
    (hb : unit.tree.bind unit.root name options = .ok bound)
    (hr : options.reportDuplicates = true) :
    List.Forall₂ bound.Reports bound.strays bound.diagnostics.toList ∧
      bound.diagnostics.toList.Pairwise fun diagnostic later => diagnostic.start = later.start →
        ∃ number number' symbol other record, bound.Reports number diagnostic ∧
          bound.Reports number' later ∧ bound.symbol? number = some symbol ∧
          bound.symbol? number' = some other ∧ symbol.declaration = other.declaration ∧
          symbol.owner ≠ other.owner ∧ unit.tree.HasComponent record symbol ∧
          unit.tree.HasComponent record other := by
  obtain ⟨deeds, htold, hbalances⟩ := exists_balances h hb hr
  have hreports := htold.reports hbalances
  refine ⟨hreports, List.pairwise_iff_getElem.2 fun i j hi hj hlt hstart => ?_⟩
  obtain ⟨hlength, hget⟩ := List.forall₂_iff_get.1 hreports
  -- the diagnostics are for different symbols
  have hne : bound.strays.get ⟨i, hlength ▸ hi⟩ ≠ bound.strays.get ⟨j, hlength ▸ hj⟩ :=
    List.pairwise_iff_getElem.1 (List.nodup_range.filter _) i j _ _ hlt
  have hfirst := hget i (hlength ▸ hi) hi
  have hlater := hget j (hlength ▸ hj) hj
  obtain ⟨symbol, _, _, _, _, hs, -, -, -, -, -, -, -, hrepeats⟩ := hfirst
  obtain ⟨other, _, _, _, _, ho, -, -, -, -, -, -, -, hrepeats'⟩ := hlater
  have hd := htold.declaration_eq hs ho (hrepeats.start.symm.trans (hstart.trans hrepeats'.start))
  obtain ⟨howner, record, hcomponent, hcomponent'⟩ := exists_record h hb hs ho hne hd
  exact ⟨_, _, symbol, other, record, hget i _ hi, hget j _ hj, hs, ho, hd.symm, howner, hcomponent,
    hcomponent'⟩

/-- A component that is declared twice, in a record with two compact constructors, and a field. -/
theorem bind_diagnostics_apart_record :
    ∃ unit bound, parse "R.java" "record R(int a, int a) { static int b, b; R { } R { } }" = .ok unit ∧
      unit.tree.bind unit.root "R.java" {} = .ok bound ∧
      bound.diagnostics.toList.map (·.start) = [20, 39, 20, 20] ∧
      List.Forall₂ bound.Reports bound.strays bound.diagnostics.toList ∧
      bound.diagnostics.toList.Pairwise fun diagnostic later => diagnostic.start = later.start →
        ∃ number number' symbol other record, bound.Reports number diagnostic ∧
          bound.Reports number' later ∧ bound.symbol? number = some symbol ∧
          bound.symbol? number' = some other ∧ symbol.declaration = other.declaration ∧
          symbol.owner ≠ other.owner ∧ unit.tree.HasComponent record symbol ∧
          unit.tree.HasComponent record other := by
  obtain ⟨unit, bound, h, hb, ht⟩ := exists_bound_of (show ((parse "R.java"
      "record R(int a, int a) { static int b, b; R { } R { } }").toOption.any fun unit =>
    (unit.tree.bind unit.root "R.java" {}).toOption.any fun bound =>
      bound.diagnostics.toList.map (·.start) = [20, 39, 20, 20]) = true by decide +kernel)
  exact ⟨unit, bound, h, hb, of_decide_eq_true ht, bind_diagnostics_apart h hb rfl⟩

/-- The second of two components of one name is reported for the record and for its compact
constructor. -/
theorem diagnostics_start_eq_of_component :
    ∃ unit bound diagnostic later, parse "R.java" "record R(int a, int a) { R { } }" = .ok unit ∧
      unit.tree.bind unit.root "R.java" {} = .ok bound ∧
      bound.diagnostics.toList = [diagnostic, later] ∧ diagnostic.start = later.start := by
  obtain ⟨unit, bound, h, hb, ht⟩ := exists_bound_of (show ((parse "R.java"
      "record R(int a, int a) { R { } }").toOption.any fun unit =>
    (unit.tree.bind unit.root "R.java" {}).toOption.any fun bound =>
      bound.diagnostics.toList.map (·.start) = [20, 20]) = true by decide +kernel)
  obtain ⟨diagnostic, rest, hd, hstart, hrest⟩ := List.map_eq_cons_iff.1 (of_decide_eq_true ht)
  obtain ⟨later, hl, hstart'⟩ := List.map_eq_singleton_iff.1 hrest
  exact ⟨unit, bound, diagnostic, later, h, hb, hl ▸ hd, hstart.trans hstart'.symm⟩

end Grammar

end JavaNames
