/-
What the settings of an analysis decide. Neither how a file is read nor how its names are bound and
looked up depends on what is to be reported. Main statement: under settings with the same limit, a file
is analysed under all or under none; the numbers in the reports are the same, and the diagnostics are
those of the full report that the setting keeps, in their order.
-/
import JavaNames.Analysis.Basic
import JavaNames.Proofs.Binding.Limit
import JavaNames.Proofs.Reading.Syntactic

namespace JavaNames

/-! ## Sorting -/

section

variable {α : Type} {le : α → α → Bool} (trans : ∀ a b c, le a b → le b c → le a c)
  (total : ∀ a b, le a b || le b a)

include trans total

/-- The first element is sorted in behind those that are to stand before it, and no others. -/
theorem mergeSort_cons_eq (a : α) (l : List α) :
    (a :: l).mergeSort le =
      ((l.mergeSort le).filter fun b => !le a b) ++ a :: (l.mergeSort le).filter fun b => le a b := by
  obtain ⟨before, behind, hcons, hl, hbefore⟩ := List.mergeSort_cons trans total a l
  have hsorted := List.pairwise_mergeSort trans total (a :: l)
  rw [hcons] at hsorted
  have hbehind : ∀ b ∈ behind, le a b = true :=
    (List.pairwise_cons.1 (List.pairwise_append.1 hsorted).2.1).1
  rw [hcons, hl, List.filter_append, List.filter_append, List.filter_eq_self.2 hbefore,
    List.filter_eq_self.2 hbehind, List.filter_eq_nil_iff.2 fun b hb => by simp [hbehind b hb],
    List.filter_eq_nil_iff.2 fun b hb => by simpa using hbefore b hb, List.append_nil, List.nil_append]

/-- Leaving elements out before sorting is the same as leaving them out afterwards. -/
theorem filter_mergeSort (keep : α → Bool) (l : List α) :
    (l.mergeSort le).filter keep = (l.filter keep).mergeSort le := by
  induction l with
  | nil => simp
  | cons a l ih =>
    by_cases ha : keep a
    · rw [List.filter_cons_of_pos ha, mergeSort_cons_eq trans total, mergeSort_cons_eq trans total,
        List.filter_append, List.filter_cons_of_pos ha, ← ih, List.filter_comm, List.filter_comm keep]
    · obtain ⟨before, behind, hcons, hl, -⟩ := List.mergeSort_cons trans total a l
      rw [List.filter_cons_of_neg ha, ← ih, hcons, hl, List.filter_append, List.filter_append,
        List.filter_cons_of_neg ha]

end

/-! ## What is kept -/

/-- Whether a setting reports a diagnostic: only names without a declaration, or else everything, but
duplicates only where these are reported. -/
def AnalysisOptions.keeps (options : AnalysisOptions) (diagnostic : Diagnostic) : Bool :=
  if options.unresolvedOnly then diagnostic.code = Rule.unresolvedName.code
  else options.bind.reportDuplicates || diagnostic.code ≠ Rule.duplicateDeclaration.code

namespace BoundUnit

/-! ## Duplicates -/

theorem code_duplicate (unit : BoundUnit) (symbol : Symbol) (existing : SymbolId) :
    (unit.duplicate symbol existing).code = Rule.duplicateDeclaration.code := by
  rw [duplicate]
  split
  · rfl
  · rfl

/-- Nothing but duplicates is reported while names are bound. -/
theorem Moves.code_eq {options : BindOptions} {unit unit' : BoundUnit} (h : unit.Moves options unit')
    (hs : ∀ diagnostic ∈ unit.diagnostics, diagnostic.code = Rule.duplicateDeclaration.code) :
    ∀ diagnostic ∈ unit'.diagnostics, diagnostic.code = Rule.duplicateDeclaration.code := by
  induction h with
  | stay => exact hs
  | scope => assumption
  | @node _ scope _ _ _ ih =>
    cases scope with
    | none => exact ih
    | some _ => exact ih
  | @declare next scope declaring symbol _ _ ih =>
    rcases diagnostics_withDeclared next options scope declaring symbol with hsame | ⟨-, existing, hpush⟩
    · rwa [hsame]
    · rw [hpush]
      intro diagnostic hd
      rcases Array.mem_push.1 hd with hd | rfl
      · exact ih diagnostic hd
      · exact code_duplicate _ symbol existing

end BoundUnit

section

variable {tree : Tree} {root : Link} {file : String} {options other : BindOptions} {bound whole : BoundUnit}

theorem Tree.code_of_bind (h : tree.bind root file options = .ok bound) :
    ∀ diagnostic ∈ bound.diagnostics, diagnostic.code = Rule.duplicateDeclaration.code := by
  obtain ⟨id, hmoves⟩ := Tree.moves_of_bind h
  exact hmoves.code_eq fun _ hd => absurd hd (Array.not_mem_empty _)

/-- A setting that does not report duplicates leaves them out of what is reported with them. -/
theorem Tree.filter_diagnostics (h : tree.bind root file options = .ok bound)
    (hw : tree.bind root file other = .ok whole) (ha : bound.Alike options other whole)
    (hr : other.reportDuplicates = true) :
    (whole.diagnostics.toList.filter fun diagnostic =>
        options.reportDuplicates || diagnostic.code ≠ Rule.duplicateDeclaration.code) =
      bound.diagnostics.toList := by
  cases ho : options.reportDuplicates with
  | true =>
    rw [ha.diagnostics (ho.trans hr.symm)]
    exact List.filter_eq_self.2 fun _ _ => rfl
  | false =>
    obtain ⟨id, hmoves⟩ := Tree.moves_of_bind h
    rw [hmoves.quiet ho]
    refine List.filter_eq_nil_iff.2 fun diagnostic hd => ?_
    rw [Tree.code_of_bind hw diagnostic (Array.mem_toList_iff.1 hd)]
    decide

end

namespace BoundUnit

/-! ## Uses of names -/

/-- A use is that of a node with a name. -/
theorem exists_of_mem_resolveUses {unit : BoundUnit} {tree : Tree} {use : Use}
    (h : use ∈ unit.resolveUses tree) :
    ∃ node name, tree.node? use.node = some node ∧ tree.name? use.node = some name := by
  obtain ⟨id, -, h⟩ := List.mem_filterMap.1 h
  unfold resolveUse? at h
  split at h
  · rename_i start stop parent name hn
    cases h
    exact ⟨_, name, hn, by rw [Tree.name?, hn]; rfl⟩
  · cases h

theorem Alike.isSelfReference_eq {options other : BindOptions} {unit unit' : BoundUnit}
    (h : unit.Alike options other unit') (tree : Tree) :
    unit'.isSelfReference tree = unit.isSelfReference tree := by
  funext node
  have hsymbol : unit'.symbol? = unit.symbol? := by
    funext id
    rw [symbol?, symbol?, h.symbols_eq]
  rw [isSelfReference, isSelfReference, h.resolveUse?_eq, hsymbol]

end BoundUnit

namespace Analysis

open Grammar (SyntaxUnit)

variable {syntaxUnit : SyntaxUnit} {bound whole : BoundUnit}

/-- What a setting says about a use is what it keeps of all there is to say. -/
theorem useDiagnostic?_filter (options : AnalysisOptions) (use : BoundUnit.Use) :
    (useDiagnostic? syntaxUnit bound false use).filter options.keeps =
      useDiagnostic? syntaxUnit bound options.unresolvedOnly use := by
  obtain ⟨_, only, _⟩ := options
  unfold useDiagnostic?
  split
  · cases use.symbol with
    | none => cases only <;> simp [AnalysisOptions.keeps, Diagnostic.ofRule, Rule.code]
    | some _ =>
      cases bound.isSelfReference syntaxUnit.tree use.node <;> cases only <;>
        simp [AnalysisOptions.keeps, Diagnostic.ofRule, Rule.code]
  · rfl

/-- A use is reported as unresolved when it has no meaning. -/
theorem map_useDiagnostic? {use : BoundUnit.Use} (h : use ∈ bound.resolveUses syntaxUnit.tree)
    (only : Bool) :
    ((useDiagnostic? syntaxUnit bound only use).map
      fun diagnostic => decide (diagnostic.code = Rule.unresolvedName.code)).getD false =
      use.symbol.isNone := by
  obtain ⟨node, name, hn, hname⟩ := BoundUnit.exists_of_mem_resolveUses h
  rw [useDiagnostic?, hn, hname]
  cases use.symbol with
  | none => rfl
  | some _ =>
    dsimp only
    split
    · rfl
    · rfl

/-! ## Diagnostics -/

theorem precedes_iff (a b : Diagnostic) :
    precedes a b ↔ a.start < b.start ∨ a.start = b.start ∧ a.code ≤ b.code := by
  simp [precedes]

theorem precedes_trans (a b c : Diagnostic) : precedes a b → precedes b c → precedes a c := by
  simp only [precedes_iff]
  omega

theorem precedes_total (a b : Diagnostic) : precedes a b || precedes b a := by
  rw [Bool.or_eq_true, precedes_iff, precedes_iff]
  omega

variable {file source name : String} {options : AnalysisOptions} {other : BindOptions}

/-- What is said about a file before its uses of names are looked at is never that a name has no
declaration. -/
theorem code_ne_unresolved (hp : Grammar.parse file source = .ok syntaxUnit)
    (hb : syntaxUnit.tree.bind syntaxUnit.root name other = .ok bound) :
    ∀ diagnostic ∈ syntaxUnit.diagnostics ++ bound.diagnostics.toList,
      diagnostic.code ≠ Rule.unresolvedName.code := by
  intro diagnostic hd
  rcases List.mem_append.1 hd with hd | hd
  · exact (Grammar.isSyntactic_of_parse hp diagnostic hd).code_ne rfl
  · rw [Tree.code_of_bind hb diagnostic (Array.mem_toList_iff.1 hd)]
    decide

/-- A setting keeps, of what is said before uses are looked at, what is said under that setting. -/
theorem filter_declared (hp : Grammar.parse file source = .ok syntaxUnit)
    (hb : syntaxUnit.tree.bind syntaxUnit.root name options.bind = .ok bound)
    (hw : syntaxUnit.tree.bind syntaxUnit.root name other = .ok whole)
    (ha : bound.Alike options.bind other whole) (hr : other.reportDuplicates = true) :
    (syntaxUnit.diagnostics ++ whole.diagnostics.toList).filter options.keeps =
      if options.unresolvedOnly then [] else syntaxUnit.diagnostics ++ bound.diagnostics.toList := by
  cases ho : options.unresolvedOnly with
  | true =>
    rw [if_pos rfl]
    refine List.filter_eq_nil_iff.2 fun diagnostic hd => ?_
    simpa [AnalysisOptions.keeps, ho] using code_ne_unresolved hp hw diagnostic hd
  | false =>
    have hsyntax : ∀ diagnostic ∈ syntaxUnit.diagnostics, options.keeps diagnostic := by
      intro diagnostic hd
      have hne := (Grammar.isSyntactic_of_parse hp diagnostic hd).code_ne
        (show Rule.duplicateDeclaration.isSyntactic = false from rfl)
      simp [AnalysisOptions.keeps, ho, hne]
    have hkeeps : options.keeps = fun diagnostic =>
        options.bind.reportDuplicates || diagnostic.code ≠ Rule.duplicateDeclaration.code := by
      funext diagnostic
      simp [AnalysisOptions.keeps, ho]
    rw [if_neg Bool.false_ne_true, List.filter_append, List.filter_eq_self.2 hsyntax, hkeeps,
      Tree.filter_diagnostics hb hw ha hr]

/-- The diagnostics under a setting are those that it keeps of a full report. -/
theorem filter_diagnostics (hp : Grammar.parse file source = .ok syntaxUnit)
    (hb : syntaxUnit.tree.bind syntaxUnit.root name options.bind = .ok bound)
    (hw : syntaxUnit.tree.bind syntaxUnit.root name other = .ok whole)
    (ha : bound.Alike options.bind other whole) (hr : other.reportDuplicates = true)
    (uses : List BoundUnit.Use) :
    (diagnostics syntaxUnit whole uses false).filter options.keeps =
      diagnostics syntaxUnit bound uses options.unresolvedOnly := by
  have huse : useDiagnostic? syntaxUnit whole false = useDiagnostic? syntaxUnit bound false := by
    funext use
    rw [useDiagnostic?, useDiagnostic?, ha.isSelfReference_eq]
  have hused : (uses.filterMap (useDiagnostic? syntaxUnit whole false)).filter options.keeps =
      uses.filterMap (useDiagnostic? syntaxUnit bound options.unresolvedOnly) := by
    rw [List.filter_filterMap, huse]
    exact List.filterMap_congr fun use _ => useDiagnostic?_filter options use
  rw [diagnostics, diagnostics, filter_mergeSort precedes_trans precedes_total, List.filter_append,
    if_neg Bool.false_ne_true, filter_declared hp hb hw ha hr, hused]

/-- As many names are reported as having no declaration as there are uses without a meaning. -/
theorem countP_diagnostics (hp : Grammar.parse file source = .ok syntaxUnit)
    (hb : syntaxUnit.tree.bind syntaxUnit.root name other = .ok bound) (only : Bool) :
    ((diagnostics syntaxUnit bound (bound.resolveUses syntaxUnit.tree) only).countP fun diagnostic =>
        diagnostic.code = Rule.unresolvedName.code) =
      (bound.resolveUses syntaxUnit.tree).countP fun use => use.symbol.isNone := by
  have hdeclared : ((if only then [] else syntaxUnit.diagnostics ++ bound.diagnostics.toList).countP
      fun diagnostic => diagnostic.code = Rule.unresolvedName.code) = 0 := by
    refine List.countP_eq_zero.2 fun diagnostic hd => ?_
    split at hd
    · exact absurd hd List.not_mem_nil
    · simpa using code_ne_unresolved hp hb diagnostic hd
  rw [diagnostics, (List.mergeSort_perm _ _).countP_eq, List.countP_append, hdeclared, Nat.zero_add,
    List.countP_filterMap]
  exact List.countP_congr fun use hu => by rw [map_useDiagnostic? hu]

end Analysis

/-! ## Settings -/

section

variable {file source : String} {syntaxUnit : Grammar.SyntaxUnit} {bound : BoundUnit}

theorem bindSource_eq_ok {options : BindOptions} :
    bindSource file source options = .ok (syntaxUnit, bound) ↔
      Grammar.parse file source = .ok syntaxUnit ∧
        syntaxUnit.tree.bind syntaxUnit.root file options = .ok bound := by
  unfold bindSource
  constructor
  · intro h
    split at h
    · cases h
    · rename_i unit hp
      generalize hb : unit.tree.bind unit.root file options = ended at h
      cases ended with
      | error => cases h
      | ok found =>
        cases h
        exact ⟨hp, hb⟩
  · rintro ⟨hp, hb⟩
    split
    · rename_i hrefused
      cases hp.symm.trans hrefused
    · rename_i unit hread
      obtain rfl := Except.ok.inj (hp.symm.trans hread)
      rw [hb]

variable {options other : AnalysisOptions}

/-- A file is analysed by reading it and binding its names. -/
theorem analyze_eq_ok {report : FileReport} :
    analyze file source options = .ok report ↔
      ∃ syntaxUnit bound, bindSource file source options.bind = .ok (syntaxUnit, bound) ∧
        Analysis.report syntaxUnit bound options = report := by
  rw [analyze]
  generalize bindSource file source options.bind = ended
  cases ended with
  | error => exact ⟨nofun, nofun⟩
  | ok found =>
    obtain ⟨syntaxUnit, bound⟩ := found
    simp [Except.map]

/-- What is analysed under one setting is analysed under another with the same limit, from units that
are alike. -/
theorem exists_alike (h : ∃ report, analyze file source options = .ok report)
    (hd : options.bind.maxScopeDepth = other.bind.maxScopeDepth) :
    ∃ syntaxUnit bound found, bindSource file source options.bind = .ok (syntaxUnit, bound) ∧
      bindSource file source other.bind = .ok (syntaxUnit, found) ∧
      bound.Alike options.bind other.bind found := by
  obtain ⟨report, h⟩ := h
  obtain ⟨syntaxUnit, bound, hs, -⟩ := analyze_eq_ok.1 h
  obtain ⟨hp, hb⟩ := bindSource_eq_ok.1 hs
  rcases (Grammar.sound_of_parse hp).branching.bind_follows hb other.bind with
    ⟨-, found, hf, ha⟩ | ⟨node, hpasses, -⟩
  · exact ⟨syntaxUnit, bound, found, hs, bindSource_eq_ok.2 ⟨hp, hf⟩, ha⟩
  · exact absurd (hd ▸ Tree.within_of_bind hb) hpasses.not_within

/-- Settings with the same limit only choose among what there is to say. A file is analysed under one
if it is analysed under another. The numbers of its symbols, scopes, uses and unresolved names are the
same, the diagnostics stand in the order of their places and numbers, as many of them as names are
unresolved say so, and where the other setting reports everything, they are what the first keeps of it. -/
theorem analyze_settings (file source : String) {options other : AnalysisOptions}
    (hd : options.bind.maxScopeDepth = other.bind.maxScopeDepth) :
    ((∃ report, analyze file source options = .ok report) ↔
      ∃ report, analyze file source other = .ok report) ∧
    ∀ report found, analyze file source options = .ok report → analyze file source other = .ok found →
      report.symbols = found.symbols ∧ report.scopes = found.scopes ∧ report.uses = found.uses ∧
      report.unresolved = found.unresolved ∧
      report.diagnostics.Pairwise (fun a b => a.start < b.start ∨ a.start = b.start ∧ a.code ≤ b.code) ∧
      report.unresolved = report.diagnostics.countP (fun diagnostic => diagnostic.code = 2002) ∧
      (other.unresolvedOnly = false → other.bind.reportDuplicates = true →
        report.diagnostics = found.diagnostics.filter options.keeps) := by
  refine ⟨⟨fun h => ?_, fun h => ?_⟩, fun report found h hother => ?_⟩
  · obtain ⟨_, _, _, -, hfound, -⟩ := exists_alike h hd
    exact ⟨_, analyze_eq_ok.2 ⟨_, _, hfound, rfl⟩⟩
  · obtain ⟨_, _, _, -, hfound, -⟩ := exists_alike h hd.symm
    exact ⟨_, analyze_eq_ok.2 ⟨_, _, hfound, rfl⟩⟩
  · obtain ⟨syntaxUnit, bound, whole, hbound, hwhole, ha⟩ := exists_alike ⟨report, h⟩ hd
    obtain rfl := Except.ok.inj ((analyze_eq_ok.2 ⟨_, _, hbound, rfl⟩).symm.trans h)
    obtain rfl := Except.ok.inj ((analyze_eq_ok.2 ⟨_, _, hwhole, rfl⟩).symm.trans hother)
    obtain ⟨hp, hb⟩ := bindSource_eq_ok.1 hbound
    obtain ⟨-, hw⟩ := bindSource_eq_ok.1 hwhole
    have huses := ha.resolveUses_eq syntaxUnit.tree
    refine ⟨(congrArg Array.size ha.symbols_eq).symm, (congrArg Array.size ha.scopes_eq).symm, ?_, ?_, ?_,
      (Analysis.countP_diagnostics hp hb options.unresolvedOnly).symm, fun hall hr => ?_⟩
    · simp only [Analysis.report, huses]
    · simp only [Analysis.report, huses]
    · refine (List.pairwise_mergeSort Analysis.precedes_trans Analysis.precedes_total _).imp ?_
      exact fun {a b} => (Analysis.precedes_iff a b).1
    · simp only [Analysis.report, huses, hall]
      exact (Analysis.filter_diagnostics hp hb hw ha hr _).symm

end

/-- A field that is declared twice, a name that nothing declares, and a field that its own value uses. -/
theorem analyze_settings_unresolved :
    ∃ report found,
      analyze "A.java" "class A \x7b int x; int x = y; int z = z; \x7d" { unresolvedOnly := true } =
        .ok report ∧
      analyze "A.java" "class A \x7b int x; int x = y; int z = z; \x7d" {} = .ok found ∧
      report.diagnostics = found.diagnostics.filter fun diagnostic => diagnostic.code = 2002 := by
  obtain ⟨found, hfound⟩ := Grammar.exists_ok (show (analyze "A.java"
    "class A \x7b int x; int x = y; int z = z; \x7d" {}).isOk = true by decide +kernel)
  obtain ⟨hiff, hall⟩ := analyze_settings "A.java" "class A \x7b int x; int x = y; int z = z; \x7d"
    (show ({ unresolvedOnly := true } : AnalysisOptions).bind.maxScopeDepth =
      ({} : AnalysisOptions).bind.maxScopeDepth from rfl)
  obtain ⟨report, hreport⟩ := hiff.2 ⟨found, hfound⟩
  obtain ⟨-, -, -, -, -, -, hfilter⟩ := hall report found hreport hfound
  exact ⟨report, found, hreport, hfound, hfilter rfl rfl⟩

end JavaNames
