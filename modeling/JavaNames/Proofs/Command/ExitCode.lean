/-
How a run ends. The exit code of a run is taken from its reports, and these hold what has been found in
the files, less what the options leave out. Main statement: where all files are analysed, the exit code
says whether there is an error in their spelling or their syntax or a name that is declared twice in one
scope, or, when nothing but names without a meaning is asked for, whether there is such a name.
-/
import JavaNames.Command.Run
import JavaNames.Proofs.Analysis.Messages
import JavaNames.Proofs.Declaring.Duplicates

namespace JavaNames

/-! ## Errors -/

theorem Rule.severity_of_isSyntactic {rule : Rule} (h : rule.isSyntactic) : rule.severity = .error := by
  cases rule with
  | unresolvedName => cases h
  | selfReference => cases h
  | _ => rfl

theorem Token.Spelling.isSyntactic {tokens : List Token} {rule : Rule} {arguments : List String}
    (h : Spelling tokens rule arguments) : rule.isSyntactic := by
  cases h <;> rfl

namespace Diagnostic

variable {diagnostic : Diagnostic} {rule : Rule} {arguments : List String}

theorem States.isError_eq (h : diagnostic.States rule arguments) :
    diagnostic.isError = decide (rule.severity = .error) := by
  rw [isError, h.severity]

theorem States.isError (h : diagnostic.States rule arguments) (hr : rule.isSyntactic) :
    diagnostic.isError = true := by
  rw [h.isError_eq, Rule.severity_of_isSyntactic hr]
  rfl

end Diagnostic

/-- What is said about the spelling or the syntax of a file is an error. -/
theorem Grammar.isError_of_parse {file text : String} {unit : SyntaxUnit}
    (h : parse file text = .ok unit) : ∀ diagnostic ∈ unit.diagnostics, diagnostic.isError = true := by
  intro diagnostic hd
  rcases telling_of_parse h diagnostic hd with hd | ⟨token, -, rule, arguments, htelling, -, hstates⟩
  · obtain ⟨rule, arguments, hspelling, hstates⟩ :=
      Token.states_of_mem_scanFrom file 0 text.toList diagnostic hd
    exact hstates.isError hspelling.isSyntactic
  · exact hstates.isError htelling.isSyntactic

theorem Tree.isError_of_bind {tree : Tree} {root : Link} {file : String} {options : BindOptions}
    {bound : BoundUnit} (h : tree.bind root file options = .ok bound) :
    ∀ diagnostic ∈ bound.diagnostics, diagnostic.isError = true := by
  intro diagnostic hd
  obtain ⟨symbol, -, -, hstates⟩ := Tree.states_of_bind h diagnostic hd
  exact hstates.isError_eq

/-- What is said about the uses of names is no error. -/
theorem Analysis.isError_useDiagnostic? {unit : Grammar.SyntaxUnit} {bound : BoundUnit} {only : Bool}
    {use : BoundUnit.Use} {diagnostic : Diagnostic}
    (h : useDiagnostic? unit bound only use = some diagnostic) : diagnostic.isError = false := by
  obtain ⟨node, name, -, -, -, hstates⟩ := states_of_useDiagnostic? h
  rw [hstates.isError_eq]
  split
  · rfl
  · rfl

/-! ## Names that are declared twice -/

namespace BoundUnit

/-- Two symbols of one name have been declared in one scope. -/
def DeclaresTwice (unit : BoundUnit) : Prop :=
  ∃ number later symbol other scope, number < later ∧ unit.symbol? number = some symbol ∧
    unit.symbol? later = some other ∧ symbol.name = other.name ∧ unit.home? symbol = some scope ∧
    unit.home? other = some scope

variable {unit : BoundUnit}

/-- Of two symbols of one name in one scope, the later one is in no table. -/
theorem Exact.exists_stray (h : unit.Exact) (hr : unit.Registers) (ht : unit.DeclaresTwice) :
    ∃ number, number ∈ unit.strays := by
  obtain ⟨number, later, symbol, other, id, hlt, hs, ho, hname, hhome, hhome'⟩ := ht
  obtain ⟨id₁, scope, held, -, hat, hscope, hheld, hle, -⟩ := h.first hs
  obtain rfl := Option.some.inj (hhome.symm.trans hat)
  refine ⟨later, mem_strays.2 ⟨(Array.getElem?_eq_some_iff.1 ho).1, ?_⟩⟩
  rintro ⟨id₂, found, hfound, hm⟩
  obtain ⟨entry, he, rfl⟩ := List.mem_map.1 hm
  obtain ⟨other', ho', hname', -, hat'⟩ := h.entry hfound entry he
  obtain rfl := Option.some.inj (ho.symm.trans ho')
  obtain rfl := Option.some.inj (hhome'.symm.trans hat')
  obtain rfl := Option.some.inj (hscope.symm.trans hfound)
  -- the scope holds the first symbol for the name, and this one is later
  have hentry := Table.symbol?_of_mem (hr.names hscope) he
  rw [← hname', ← hname, hheld] at hentry
  obtain rfl := Option.some.inj hentry
  exact Nat.not_le_of_lt hlt hle

theorem Reports.declaresTwice {number : SymbolId} {diagnostic : Diagnostic}
    (h : unit.Reports number diagnostic) : unit.DeclaresTwice := by
  obtain ⟨symbol, id, scope, held, first, hs, hhome, -, -, hlt, hf, hname, hhome', -⟩ := h
  exact ⟨held, number, first, symbol, id, hlt, hf, hs, hname, hhome', hhome⟩

end BoundUnit

/-- What corresponds to an element of a list stands in the other list. -/
theorem exists_of_forall₂ {α β : Type} {R : α → β → Prop} {as : List α} {bs : List β}
    (h : List.Forall₂ R as bs) : ∀ a ∈ as, ∃ b ∈ bs, R a b := by
  induction h with
  | nil => exact fun _ hm => absurd hm List.not_mem_nil
  | @cons first other as bs hfirst _ ih =>
    intro a ha
    rcases List.mem_cons.1 ha with rfl | ha
    · exact ⟨other, List.mem_cons_self, hfirst⟩
    · obtain ⟨b, hb, hr⟩ := ih a ha
      exact ⟨b, List.mem_cons_of_mem _ hb, hr⟩

/-- While names are bound, something is said just if duplicates are to be reported and there are some. -/
theorem Grammar.exists_diagnostic_iff {file text name : String} {unit : SyntaxUnit}
    {options : BindOptions} {bound : BoundUnit} (h : parse file text = .ok unit)
    (hb : unit.tree.bind unit.root name options = .ok bound) :
    (∃ diagnostic, diagnostic ∈ bound.diagnostics) ↔
      options.reportDuplicates = true ∧ bound.DeclaresTwice := by
  cases hr : options.reportDuplicates with
  | false =>
    obtain ⟨id, hmoves⟩ := Tree.moves_of_bind hb
    rw [hmoves.quiet hr]
    constructor
    · rintro ⟨diagnostic, hd⟩
      exact absurd hd (Array.not_mem_empty _)
    · rintro ⟨hfalse, -⟩
      exact Bool.noConfusion hfalse
  | true =>
    obtain ⟨deeds, htold, hbalances⟩ := exists_balances h hb hr
    have hreports := htold.reports hbalances
    constructor
    · rintro ⟨diagnostic, hd⟩
      obtain ⟨number, -, hreport⟩ :=
        exists_of_forall₂ hreports.flip diagnostic (Array.mem_toList_iff.2 hd)
      exact ⟨rfl, BoundUnit.Reports.declaresTwice hreport⟩
    · rintro ⟨-, ht⟩
      obtain ⟨number, hn⟩ := (htold.exact hbalances.toRegisters).exists_stray hbalances.toRegisters ht
      obtain ⟨diagnostic, hd, -⟩ := exists_of_forall₂ hreports number hn
      exact ⟨diagnostic, Array.mem_toList_iff.1 hd⟩

/-! ## Reports -/

namespace Analysis

open Grammar (SyntaxUnit)

variable {file source : String} {unit : SyntaxUnit} {bound : BoundUnit} {options : AnalysisOptions}

/-- A report holds an error just if it holds more than names without a meaning and there is something to
say about the file apart from the uses of its names. -/
theorem hasErrors_report_iff (h : bindSource file source options.bind = .ok (unit, bound)) :
    (report unit bound options).hasErrors = true ↔ options.unresolvedOnly = false ∧
      ((∃ diagnostic, diagnostic ∈ unit.diagnostics) ∨
        options.bind.reportDuplicates = true ∧ bound.DeclaresTwice) := by
  obtain ⟨hp, hb⟩ := bindSource_eq_ok.1 h
  rw [← Grammar.exists_diagnostic_iff hp hb, FileReport.hasErrors, List.any_eq_true]
  constructor
  · rintro ⟨diagnostic, hd, herror⟩
    rcases mem_diagnostics.1 hd with ⟨honly, hd | hd⟩ | ⟨use, -, hd⟩
    · exact ⟨honly, .inl ⟨diagnostic, hd⟩⟩
    · exact ⟨honly, .inr ⟨diagnostic, hd⟩⟩
    · rw [isError_useDiagnostic? hd] at herror
      exact Bool.noConfusion herror
  · rintro ⟨honly, ⟨diagnostic, hd⟩ | ⟨diagnostic, hd⟩⟩
    · exact ⟨diagnostic, mem_diagnostics.2 (.inl ⟨honly, .inl hd⟩), Grammar.isError_of_parse hp diagnostic hd⟩
    · exact ⟨diagnostic, mem_diagnostics.2 (.inl ⟨honly, .inr hd⟩), Tree.isError_of_bind hb diagnostic hd⟩

/-- A report counts names without a meaning just if there is a use without one. -/
theorem unresolved_report_iff (unit : SyntaxUnit) (bound : BoundUnit) (options : AnalysisOptions) :
    0 < (report unit bound options).unresolved ↔
      ∃ use ∈ bound.resolveUses unit.tree, use.symbol = none := by
  change 0 < (bound.resolveUses unit.tree).countP _ ↔ _
  simp only [List.countP_pos_iff, Option.isNone_iff_eq_none]

end Analysis

/-! ## Runs -/

namespace Command

open Files (Found)
open Grammar (SyntaxUnit)

/-- The syntax of a file of a run and its names, as they are found. -/
def Analysed (options : Options) (read : String → Option ByteArray) (path : String) (unit : SyntaxUnit)
    (bound : BoundUnit) : Prop :=
  ∃ source, (read path).bind String.fromUTF8? = some source ∧
    bindSource path source options.analysis.bind = .ok (unit, bound)

variable {language : PatternLanguage} {options : Options} {find : String → Option Found}
  {read : String → Option ByteArray}

theorem analyzeFile_eq_ok {path : String} {report : FileReport} :
    analyzeFile options.analysis read path = .ok report ↔ ∃ unit bound,
      Analysed options read path unit bound ∧ Analysis.report unit bound options.analysis = report := by
  unfold analyzeFile
  cases hs : (read path).bind String.fromUTF8? with
  | none => simp [Analysed, hs]
  | some source =>
    have hmap : (analyze path source options.analysis).mapError RunError.analysis = .ok report ↔
        analyze path source options.analysis = .ok report := by
      cases analyze path source options.analysis with
      | error cause => exact ⟨nofun, nofun⟩
      | ok found => simp [Except.mapError]
    dsimp only
    rw [hmap, analyze_eq_ok]
    constructor
    · rintro ⟨unit, bound, hb, hr⟩
      exact ⟨unit, bound, ⟨source, hs, hb⟩, hr⟩
    · rintro ⟨unit, bound, ⟨source', hs', hb⟩, hr⟩
      obtain rfl := Option.some.inj (hs.symm.trans hs')
      exact ⟨unit, bound, hb, hr⟩

/-- Reports that are made one after the other are those of the single files. -/
theorem mapM_eq_ok {α β ε : Type} {f : α → Except ε β} {as : List α} {bs : List β} :
    as.mapM f = .ok bs ↔ List.Forall₂ (fun a b => f a = .ok b) as bs := by
  induction as generalizing bs with
  | nil =>
    rw [List.mapM_nil]
    constructor
    · intro h
      cases h
      exact .nil
    · rintro ⟨⟩
      rfl
  | cons a as ih =>
    rw [List.mapM_cons]
    constructor
    · intro h
      cases ha : f a with
      | error cause =>
        rw [ha] at h
        cases h
      | ok b =>
        rw [ha] at h
        cases hrest : as.mapM f with
        | error cause =>
          rw [hrest] at h
          cases h
        | ok rest =>
          rw [hrest] at h
          cases h
          exact .cons ha (ih.1 hrest)
    · rintro (_ | ⟨ha, hrest⟩)
      rw [ha, ih.2 hrest]
      rfl

/-- A run that comes to reports has found its files and analysed each of them. -/
theorem run_eq_ok {reports : List FileReport} :
    run language options find read = .ok reports ↔ ∃ files, sources language options find = .ok files ∧
      List.Forall₂ (fun path report => analyzeFile options.analysis read path = .ok report)
        files reports := by
  unfold run
  cases sources language options find with
  | error cause =>
    constructor
    · exact nofun
    · rintro ⟨files, hfiles, -⟩
      cases hfiles
  | ok files =>
    constructor
    · exact fun h => ⟨files, rfl, mapM_eq_ok.1 h⟩
    · rintro ⟨_, ⟨rfl⟩, h⟩
      exact mapM_eq_ok.2 h

/-- Something holds of one of the reports of a run just if it holds of what has been found in one of its
files. -/
theorem any_reports_iff {files : List String} {reports : List FileReport}
    (h : List.Forall₂ (fun path report => analyzeFile options.analysis read path = .ok report)
      files reports) (test : FileReport → Bool) :
    reports.any test = true ↔ ∃ path ∈ files, ∃ unit bound, Analysed options read path unit bound ∧
      test (Analysis.report unit bound options.analysis) = true := by
  rw [List.any_eq_true]
  constructor
  · rintro ⟨report, hr, htest⟩
    obtain ⟨path, hp, ha⟩ := exists_of_forall₂ h.flip report hr
    obtain ⟨unit, bound, hfound, rfl⟩ := analyzeFile_eq_ok.1 ha
    exact ⟨path, hp, unit, bound, hfound, htest⟩
  · rintro ⟨path, hp, unit, bound, hfound, htest⟩
    obtain ⟨report, hr, ha⟩ := exists_of_forall₂ h path hp
    obtain rfl := Except.ok.inj (ha.symm.trans (analyzeFile_eq_ok.2 ⟨unit, bound, hfound, rfl⟩))
    exact ⟨_, hr, htest⟩

/-- What makes a run fail: something is said about the spelling or the syntax of a file, or duplicates are
not allowed and a name is declared twice in one scope. -/
def Faulty (options : Options) (unit : SyntaxUnit) (bound : BoundUnit) : Prop :=
  (∃ diagnostic, diagnostic ∈ unit.diagnostics) ∨
    options.allowDuplicates = false ∧ bound.DeclaresTwice

theorem hasErrors_iff {path : String} {unit : SyntaxUnit} {bound : BoundUnit}
    (h : Analysed options read path unit bound) :
    (Analysis.report unit bound options.analysis).hasErrors = true ↔
      options.unresolvedOnly = false ∧ Faulty options unit bound := by
  obtain ⟨source, -, hb⟩ := h
  rw [Analysis.hasErrors_report_iff hb]
  have hallow : options.analysis.bind.reportDuplicates = !options.allowDuplicates := rfl
  rw [hallow, Bool.not_eq_true', Faulty]
  rfl

/-- Where all files of a run are analysed, its exit code follows from what has been found in them, however
command lines are read and whatever patterns there are. Unless only names without a meaning are asked
for, it is one if there is an error in the spelling or the syntax of a file or, where duplicates are not
allowed, a name that is declared twice in one scope, and zero if there is none. If only names without a
meaning are asked for, it is two if there is a use of such a name, and zero if there is none. -/
theorem answer_code {options? : List String → Except Stop Options} {arguments : List String}
    {reports : List FileReport} (ink : Options → Report.Ink) (ha : options? arguments = .ok options)
    (h : run language options find read = .ok reports) :
    ∃ files, sources language options find = .ok files ∧
      (∀ path ∈ files, ∃ unit bound, Analysed options read path unit bound) ∧
      (options.unresolvedOnly = false →
        ((answer language options? arguments ink find read).code = 1 ↔ ∃ path ∈ files, ∃ unit bound,
          Analysed options read path unit bound ∧ Faulty options unit bound) ∧
        ((answer language options? arguments ink find read).code = 1 ∨
          (answer language options? arguments ink find read).code = 0)) ∧
      (options.unresolvedOnly = true →
        ((answer language options? arguments ink find read).code = 2 ↔ ∃ path ∈ files, ∃ unit bound,
          Analysed options read path unit bound ∧
            ∃ use ∈ bound.resolveUses unit.tree, use.symbol = none) ∧
        ((answer language options? arguments ink find read).code = 2 ∨
          (answer language options? arguments ink find read).code = 0)) := by
  obtain ⟨files, hfiles, hreports⟩ := run_eq_ok.1 h
  have hcode : (answer language options? arguments ink find read).code =
      exitCode options.unresolvedOnly reports := by
    rw [answer, ha]
    dsimp only
    rw [h]
    rfl
  rw [hcode]
  have herrors := any_reports_iff hreports FileReport.hasErrors
  have hunresolved := any_reports_iff hreports fun report => decide (0 < report.unresolved)
  refine ⟨files, hfiles, fun path hp => ?_, fun honly => ?_, fun honly => ?_⟩
  · obtain ⟨report, -, hr⟩ := exists_of_forall₂ hreports path hp
    obtain ⟨unit, bound, hfound, -⟩ := analyzeFile_eq_ok.1 hr
    exact ⟨unit, bound, hfound⟩
  · have hiff : reports.any FileReport.hasErrors = true ↔ ∃ path ∈ files, ∃ unit bound,
        Analysed options read path unit bound ∧ Faulty options unit bound := by
      rw [herrors]
      constructor
      · rintro ⟨path, hp, unit, bound, hfound, herror⟩
        exact ⟨path, hp, unit, bound, hfound, ((hasErrors_iff hfound).1 herror).2⟩
      · rintro ⟨path, hp, unit, bound, hfound, hfaulty⟩
        exact ⟨path, hp, unit, bound, hfound, (hasErrors_iff hfound).2 ⟨honly, hfaulty⟩⟩
    rw [← hiff, exitCode, honly]
    cases reports.any FileReport.hasErrors with
    | true => exact ⟨⟨fun _ => rfl, fun _ => rfl⟩, .inl rfl⟩
    | false => exact ⟨⟨nofun, nofun⟩, .inr rfl⟩
  · have hnone : reports.any FileReport.hasErrors = false := by
      rw [Bool.eq_false_iff, ne_eq, herrors]
      rintro ⟨path, -, unit, bound, hfound, herror⟩
      have hfalse := ((hasErrors_iff hfound).1 herror).1
      rw [honly] at hfalse
      exact Bool.noConfusion hfalse
    have hiff : (reports.any fun report => decide (0 < report.unresolved)) = true ↔
        ∃ path ∈ files, ∃ unit bound, Analysed options read path unit bound ∧
          ∃ use ∈ bound.resolveUses unit.tree, use.symbol = none := by
      rw [hunresolved]
      simp only [decide_eq_true_iff, Analysis.unresolved_report_iff]
    rw [← hiff, exitCode, hnone, honly]
    cases reports.any fun report => decide (0 < report.unresolved) with
    | true => exact ⟨⟨fun _ => rfl, fun _ => rfl⟩, .inl rfl⟩
    | false => exact ⟨⟨nofun, nofun⟩, .inr rfl⟩

theorem fromUTF8?_toUTF8 (text : String) : String.fromUTF8? text.toUTF8 = some text := by
  rw [String.fromUTF8?, String.toUTF8_eq_toByteArray, dif_pos text.isValidUTF8]
  rfl

/-- A field that is declared twice makes a run fail, but not where only names without a meaning are asked
for. -/
theorem answer_code_twice :
    (answer globs Options.ofArguments ["A.java"] (fun _ => .plain) (fun _ => some .file)
      fun _ => some "class A \x7b int x; int x; \x7d".toUTF8).code = 1 ∧
    (answer globs Options.ofArguments ["--unresolved-only", "A.java"] (fun _ => .plain)
      (fun _ => some .file) fun _ => some "class A \x7b int x; int x; \x7d".toUTF8).code = 0 := by
  obtain ⟨unit, bound, hp, hb, htest⟩ := Grammar.exists_bound_of (show ((Grammar.parse "A.java"
    "class A \x7b int x; int x; \x7d").toOption.any fun unit =>
      (unit.tree.bind unit.root "A.java" {}).toOption.any fun bound =>
        bound.strays = [1] && (bound.resolveUses unit.tree).isEmpty) = true by decide +kernel)
  obtain ⟨hstrays, huses⟩ := Bool.and_eq_true_iff.1 htest
  have htwice : bound.DeclaresTwice := by
    obtain ⟨deeds, htold, hbalances⟩ := Grammar.exists_balances hp hb rfl
    have hstray : 1 ∈ bound.strays := by
      rw [of_decide_eq_true hstrays]
      exact List.mem_cons_self
    obtain ⟨_, -, hreport⟩ := exists_of_forall₂ (htold.reports hbalances) 1 hstray
    exact BoundUnit.Reports.declaresTwice hreport
  have hfound (options : Options) (ho : options.allowDuplicates = false) : Analysed options
      (fun _ => some "class A \x7b int x; int x; \x7d".toUTF8) "A.java" unit bound := by
    refine ⟨_, fromUTF8?_toUTF8 _, ?_⟩
    rw [Options.analysis, ho]
    exact bindSource_eq_ok.2 ⟨hp, hb⟩
  have hrun (options : Options) (ho : options.allowDuplicates = false)
      (hsources : sources globs options (fun _ => some .file) = .ok ["A.java"]) :
      run globs options (fun _ => some .file) (fun _ => some "class A \x7b int x; int x; \x7d".toUTF8) =
        .ok [Analysis.report unit bound options.analysis] :=
    run_eq_ok.2 ⟨_, hsources, .cons (analyzeFile_eq_ok.2 ⟨unit, bound, hfound options ho, rfl⟩) .nil⟩
  constructor
  · have hsources : sources globs { paths := ["A.java"] } (fun _ => some .file) = .ok ["A.java"] := by
      decide +kernel
    obtain ⟨files, hfiles, -, hcode, -⟩ := answer_code (fun _ => .plain)
      (show Options.ofArguments ["A.java"] = .ok { paths := ["A.java"] } by decide +kernel)
      (hrun _ rfl hsources)
    obtain rfl := Except.ok.inj (hsources.symm.trans hfiles)
    exact (hcode rfl).1.2 ⟨"A.java", List.mem_cons_self, unit, bound, hfound _ rfl, .inr ⟨rfl, htwice⟩⟩
  · have hsources : sources globs { paths := ["A.java"], unresolvedOnly := true } (fun _ => some .file) =
        .ok ["A.java"] := by
      decide +kernel
    obtain ⟨files, hfiles, -, -, hcode⟩ := answer_code (fun _ => .plain)
      (show Options.ofArguments ["--unresolved-only", "A.java"] =
        .ok { paths := ["A.java"], unresolvedOnly := true } by decide +kernel)
      (hrun _ rfl hsources)
    obtain rfl := Except.ok.inj (hsources.symm.trans hfiles)
    refine (hcode rfl).2.resolve_left fun htwo => ?_
    obtain ⟨path, hpath, unit', bound', ⟨source, hread, hbound⟩, use, hu, -⟩ := (hcode rfl).1.1 htwo
    obtain rfl := List.mem_singleton.1 hpath
    obtain ⟨source', hread', hbound'⟩ := hfound { paths := ["A.java"], unresolvedOnly := true } rfl
    obtain rfl := Option.some.inj (hread.symm.trans hread')
    obtain ⟨rfl, rfl⟩ := Prod.mk.inj (Except.ok.inj (hbound.symm.trans hbound'))
    rw [List.isEmpty_iff.1 huses] at hu
    cases hu

end Command

end JavaNames
