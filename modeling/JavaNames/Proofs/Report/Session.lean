/-
A reporter over many requests. What it keeps for later is what it would find out again: the lines that
it keeps are those of the text that it has of the file, and no writing changes which text that is. Main
statement: after any requests a diagnostic is written as by a new reporter that is given, once for each
file of the diagnostic, the text that was registered last.
-/
import JavaNames.Report.Text
import Mathlib.Data.List.Dedup

namespace JavaNames

/-- The files that a diagnostic is about, its own and those of its notes. -/
def Diagnostic.files (diagnostic : Diagnostic) : List String :=
  diagnostic.file :: diagnostic.notes.map (·.file)

namespace Report.Reporter

open JavaNames.Text (LineMap)

/-! ## What is known of a file -/

/-- The text that a reporter has of a file or finds when it looks the file up. -/
def text? (reporter : Reporter) (file : String) : Option String :=
  (reporter.sources.lookup file).or (reporter.disk file)

/-- The lines that are kept are lines of the texts that are kept. -/
def Coherent (reporter : Reporter) : Prop :=
  ∀ entry ∈ reporter.starts, ∃ text, reporter.sources.lookup entry.1 = some text ∧
    entry.2 = (LineMap.ofSource text).starts

/-- What writing leaves of a reporter: it may know more of the files, but knows nothing else of them. -/
structure Kept (before later : Reporter) : Prop where
  coherent : later.Coherent
  ink : later.ink = before.ink
  text? : ∀ file, later.text? file = before.text? file

/-- Two reporters have the same texts of files and write in the same ink. -/
structure Agree (files : List String) (one other : Reporter) : Prop where
  ink : one.ink = other.ink
  text? : ∀ file ∈ files, one.text? file = other.text? file

variable {reporter before later one other : Reporter} {files : List String} {file text : String}

theorem Kept.refl (h : reporter.Coherent) : Kept reporter reporter := ⟨h, rfl, fun _ => rfl⟩

theorem Kept.trans {between : Reporter} (h : Kept before between) (h' : Kept between later) :
    Kept before later :=
  ⟨h'.coherent, h'.ink.trans h.ink, fun file => (h'.text? file).trans (h.text? file)⟩

theorem Agree.mono {fewer : List String} (h : Agree files one other) (hsub : fewer ⊆ files) :
    Agree fewer one other :=
  ⟨h.ink, fun file hf => h.text? file (hsub hf)⟩

/-- Writing on both sides leaves what two reporters have in common. -/
theorem Agree.kept {one' other' : Reporter} (h : Agree files one other) (hone : Kept one one')
    (hother : Kept other other') : Agree files one' other' where
  ink := by rw [hone.ink, hother.ink, h.ink]
  text? := fun file hf => by rw [hone.text?, hother.text?, h.text? file hf]

theorem mem_of_lookup {α : Type} {entries : List (String × α)} {key : String} {value : α}
    (h : entries.lookup key = some value) : (key, value) ∈ entries := by
  obtain ⟨front, back, rfl, -⟩ := List.lookup_eq_some_iff.1 h
  simp

theorem lookup_cons_ne {α : Type} {key key' : String} (h : key ≠ key') (value : α)
    (entries : List (String × α)) : ((key', value) :: entries).lookup key = entries.lookup key := by
  rw [List.lookup_cons, beq_false_of_ne h]

/-! ## Registering a text -/

theorem coherent_fresh (ink : Ink) (disk : String → Option String) : (fresh ink disk).Coherent :=
  fun _ h => absurd h List.not_mem_nil

/-- The lines of the text before go, so that those that stay are lines of the other files. -/
theorem Coherent.addSource (h : reporter.Coherent) (file text : String) :
    (reporter.addSource file text).Coherent := by
  intro entry hmem
  obtain ⟨hmem, hne⟩ := List.mem_filter.1 hmem
  obtain ⟨source, hlookup, hstarts⟩ := h entry hmem
  exact ⟨source, by rw [← hlookup]; exact lookup_cons_ne (by simpa using hne) _ _, hstarts⟩

theorem text?_addSource (reporter : Reporter) (file text other : String) :
    (reporter.addSource file text).text? other =
      ([(file, text)].lookup other).or (reporter.text? other) := by
  rw [Reporter.text?, Reporter.text?, ← Option.or_assoc, ← List.lookup_append]
  rfl

/-- Registers texts of files, one after the other. -/
def addSources (reporter : Reporter) (entries : List (String × String)) : Reporter :=
  entries.foldl (fun reporter entry => reporter.addSource entry.1 entry.2) reporter

theorem addReports_eq (reporter : Reporter) (reports : List FileReport) :
    reporter.addReports reports =
      reporter.addSources (reports.map fun report => (report.file, report.source)) := by
  rw [addReports, addSources, List.foldl_map]

theorem Coherent.addSources (h : reporter.Coherent) (entries : List (String × String)) :
    (reporter.addSources entries).Coherent := by
  induction entries generalizing reporter with
  | nil => exact h
  | cons entry entries ih => exact ih (h.addSource entry.1 entry.2)

theorem ink_addSources (reporter : Reporter) (entries : List (String × String)) :
    (reporter.addSources entries).ink = reporter.ink := by
  induction entries generalizing reporter with
  | nil => rfl
  | cons entry entries ih => exact ih _

/-- Of several texts of a file the last one counts. -/
theorem text?_addSources (reporter : Reporter) (entries : List (String × String)) (file : String) :
    (reporter.addSources entries).text? file =
      (entries.reverse.lookup file).or (reporter.text? file) := by
  induction entries generalizing reporter with
  | nil => rfl
  | cons entry entries ih =>
    rw [List.reverse_cons, List.lookup_append, Option.or_assoc, ← text?_addSource]
    exact ih _

theorem addSources_append (reporter : Reporter) (entries more : List (String × String)) :
    reporter.addSources (entries ++ more) = (reporter.addSources entries).addSources more :=
  List.foldl_append

/-- What a reporter found out on its own has no part in what it knows when texts are registered. -/
theorem Kept.addSources (h : Kept before later) (entries : List (String × String)) :
    Kept (before.addSources entries) (later.addSources entries) where
  coherent := h.coherent.addSources entries
  ink := by rw [ink_addSources, ink_addSources, h.ink]
  text? file := by rw [text?_addSources, text?_addSources, h.text? file]

/-! ## Writing -/

/-- What a writer writes depends on no more than the texts of some files and the ink, and it leaves
these as they are. -/
structure Steady {α : Type} (files : List String) (writer : Writer α) : Prop where
  kept : ∀ {reporter : Reporter}, reporter.Coherent → Kept reporter (writer.run reporter).2
  agree : ∀ {one other : Reporter}, one.Coherent → other.Coherent → Agree files one other →
    (writer.run one).1 = (writer.run other).1

namespace Steady

variable {α β : Type} {writer : Writer α}

theorem pure (value : α) : Steady files (Pure.pure value : Writer α) :=
  ⟨Kept.refl, fun _ _ _ => rfl⟩

theorem bind {next : α → Writer β} (h : Steady files writer) (hnext : ∀ value, Steady files (next value)) :
    Steady files (writer >>= next) where
  kept hc := (h.kept hc).trans ((hnext _).kept (h.kept hc).coherent)
  agree {one other} hone hother ha := by
    have hkept := h.kept hone
    have hkept' := h.kept hother
    have hvalue := h.agree hone hother ha
    change ((next (writer.run one).1).run (writer.run one).2).1 =
      ((next (writer.run other).1).run (writer.run other).2).1
    rw [hvalue]
    exact (hnext _).agree hkept.coherent hkept'.coherent (ha.kept hkept hkept')

theorem mono {more : List String} (h : Steady files writer) (hsub : files ⊆ more) :
    Steady more writer :=
  ⟨h.kept, fun hone hother ha => h.agree hone hother (ha.mono hsub)⟩

theorem mapM {items : List α} {write : α → Writer β} (h : ∀ item ∈ items, Steady files (write item)) :
    Steady files (items.mapM write) := by
  induction items with
  | nil => exact .pure []
  | cons item items ih =>
    rw [List.mapM_cons]
    exact (h item List.mem_cons_self).bind fun _ =>
      (ih fun item hi => h item (List.mem_cons_of_mem _ hi)).bind fun _ => .pure _

theorem currentInk : Steady files currentInk :=
  ⟨Kept.refl, fun _ _ ha => ha.ink⟩

end Steady

/-- The reporter that keeps a text which it looked up. -/
def keepSource (reporter : Reporter) (file text : String) : Reporter :=
  { reporter with sources := (file, text) :: reporter.sources }

/-- The reporter that keeps where the lines of a text start. -/
def keepStarts (reporter : Reporter) (file : String) (starts : List Nat) : Reporter :=
  { reporter with starts := (file, starts) :: reporter.starts }

/-- A text that is looked up is kept beside those of other files, and is the one that it was. -/
theorem kept_keepSource (h : reporter.Coherent) (hnone : reporter.sources.lookup file = none)
    (hdisk : reporter.disk file = some text) : Kept reporter (reporter.keepSource file text) where
  coherent entry hmem := by
    obtain ⟨source, hlookup, hstarts⟩ := h entry hmem
    have hne : entry.1 ≠ file := by
      intro heq
      rw [heq, hnone] at hlookup
      cases hlookup
    exact ⟨source, by rw [← hlookup]; exact lookup_cons_ne hne _ _, hstarts⟩
  ink := rfl
  text? other := by
    rcases eq_or_ne other file with rfl | hne
    · simp [Reporter.text?, keepSource, hnone, hdisk]
    · rw [Reporter.text?, Reporter.text?, keepSource, lookup_cons_ne hne]

/-- The lines of a text that is kept can be kept too. -/
theorem kept_keepStarts (h : reporter.Coherent) (hsource : reporter.sources.lookup file = some text) :
    Kept reporter (reporter.keepStarts file (LineMap.ofSource text).starts) where
  coherent entry hmem := by
    rcases List.mem_cons.1 hmem with rfl | hmem
    · exact ⟨text, hsource, rfl⟩
    · exact h entry hmem
  ink := rfl
  text? _ := rfl

/-- The text of a file is found, and it is kept from then on. -/
theorem run_source? (h : reporter.Coherent) (file : String) :
    ((source? file).run reporter).1 = reporter.text? file ∧
      Kept reporter ((source? file).run reporter).2 ∧
      ((source? file).run reporter).2.sources.lookup file = reporter.text? file := by
  cases hlookup : reporter.sources.lookup file with
  | some text =>
    have hrun : (source? file).run reporter = pure (some text, reporter) := by
      simp [source?, hlookup]
    have htext : reporter.text? file = some text := by rw [Reporter.text?, hlookup, Option.some_or]
    rw [hrun]
    exact ⟨htext.symm, .refl h, hlookup.trans htext.symm⟩
  | none =>
    have htext : reporter.text? file = reporter.disk file := by
      rw [Reporter.text?, hlookup, Option.none_or]
    rw [htext]
    cases hdisk : reporter.disk file with
    | some text =>
      have hrun : (source? file).run reporter = pure (some text, reporter.keepSource file text) := by
        simp [source?, hlookup, hdisk, keepSource]
      rw [hrun]
      exact ⟨rfl, kept_keepSource h hlookup hdisk, List.lookup_cons_self⟩
    | none =>
      have hrun : (source? file).run reporter = pure (none, reporter) := by
        simp [source?, hlookup, hdisk]
      rw [hrun]
      exact ⟨rfl, .refl h, hlookup⟩

/-- The lines of a text are the same whether they were kept or not. -/
theorem run_linesOf (h : reporter.Coherent) (hsource : reporter.sources.lookup file = some text) :
    ((linesOf file text).run reporter).1 = LineMap.ofSource text ∧
      Kept reporter ((linesOf file text).run reporter).2 := by
  cases hlookup : reporter.starts.lookup file with
  | some starts =>
    have hrun : (linesOf file text).run reporter = pure (⟨text, starts⟩, reporter) := by
      simp [linesOf, hlookup]
    obtain ⟨source, hsource', hstarts⟩ := h _ (mem_of_lookup hlookup)
    obtain rfl : text = source := Option.some.inj (hsource.symm.trans hsource')
    rw [hrun]
    exact ⟨congrArg (LineMap.mk text) hstarts, .refl h⟩
  | none =>
    have hrun : (linesOf file text).run reporter =
        pure (LineMap.ofSource text, reporter.keepStarts file (LineMap.ofSource text).starts) := by
      simp [linesOf, hlookup, keepStarts]
    rw [hrun]
    exact ⟨rfl, kept_keepStarts h hsource⟩

/-- The lines of a file are those of its text. -/
theorem run_lines? (h : reporter.Coherent) (file : String) :
    ((lines? file).run reporter).1 =
        (if file.isEmpty then none else (reporter.text? file).map LineMap.ofSource) ∧
      Kept reporter ((lines? file).run reporter).2 := by
  by_cases hname : file.isEmpty
  · have hrun : (lines? file).run reporter = pure (none, reporter) := by simp [lines?, hname]
    rw [hrun, if_pos hname]
    exact ⟨rfl, .refl h⟩
  obtain ⟨hvalue, hkept, hkeeps⟩ := run_source? h file
  rw [if_neg hname]
  obtain ⟨later, hfound⟩ : ∃ later,
      (source? file).run reporter = pure (reporter.text? file, later) := ⟨_, Prod.ext hvalue rfl⟩
  rw [hfound] at hkept hkeeps
  cases htext : reporter.text? file with
  | none =>
    have hrun : (lines? file).run reporter = pure (none, later) := by
      simp [lines?, hname, hfound, htext]
    rw [hrun]
    exact ⟨rfl, hkept⟩
  | some text =>
    have hlines := run_linesOf hkept.coherent (hkeeps.trans htext)
    have hrun : (lines? file).run reporter = (some <$> linesOf file text).run later := by
      simp [lines?, hname, hfound, htext]
    rw [hrun]
    exact ⟨congrArg some hlines.1, hkept.trans hlines.2⟩

theorem steady_lines? (h : file ∈ files) : Steady files (lines? file) where
  kept hc := (run_lines? hc file).2
  agree hone hother ha := by
    rw [(run_lines? hone file).1, (run_lines? hother file).1, ha.text? file h]

theorem steady_location? (h : file ∈ files) (offset : Nat) : Steady files (location? file offset) :=
  (steady_lines? h).bind fun _ => .pure _

theorem steady_snippet? (h : file ∈ files) (start length : Nat) :
    Steady files (snippet? file start length) := by
  rw [snippet?]
  split
  · exact .pure none
  · exact Steady.currentInk.bind fun _ => (steady_lines? h).bind fun _ => .pure _

theorem steady_writeNote {note : Note} (h : note.file ∈ files) : Steady files (writeNote note) :=
  Steady.currentInk.bind fun _ => (steady_location? h _).bind fun _ =>
    (steady_snippet? h _ _).bind fun _ => .pure _

theorem steady_writeDiagnostic (diagnostic : Diagnostic) :
    Steady diagnostic.files (writeDiagnostic diagnostic) := by
  have hfile : diagnostic.file ∈ diagnostic.files := List.mem_cons_self
  have hnotes : Steady diagnostic.files (diagnostic.notes.mapM writeNote) :=
    .mapM fun note hn => steady_writeNote (List.mem_cons_of_mem _ (List.mem_map_of_mem hn))
  exact Steady.currentInk.bind fun _ => (steady_location? hfile _).bind fun _ =>
    (steady_snippet? hfile _ _).bind fun _ => hnotes.bind fun _ => .pure _

theorem steady_writeDiagnostics (diagnostics : List Diagnostic) :
    Steady (diagnostics.flatMap Diagnostic.files) (writeDiagnostics diagnostics) := by
  refine Steady.bind (.mapM fun diagnostic hd => ?_) fun _ => .pure _
  exact (steady_writeDiagnostic diagnostic).mono fun file hf => List.mem_flatMap.2 ⟨_, hd, hf⟩

/-- A report on a run keeps the texts of its files, and beside these nothing but what is known anyway. -/
theorem kept_writeRun (h : reporter.Coherent) (reports : List FileReport) :
    Kept (reporter.addReports reports) ((writeRun reports).run reporter).2 := by
  have hrest := Steady.currentInk.bind fun ink =>
    (steady_writeDiagnostics (reports.flatMap (·.diagnostics))).bind fun found =>
      .pure ("".intercalate (reports.map (treeText ink)) ++
        (if found.isEmpty then "" else found ++ "\n\n") ++ summary ink reports)
  have hcoherent : (reporter.addReports reports).Coherent := by
    rw [addReports_eq]
    exact h.addSources _
  -- what is written is written by the reporter that has the texts of the files already
  exact (hrest.kept hcoherent :)

/-! ## Requests -/

/-- What a reporter can be asked for. -/
inductive Request where
  | addSource (file text : String)
  | writeDiagnostic (diagnostic : Diagnostic)
  | writeDiagnostics (diagnostics : List Diagnostic)
  | writeRun (reports : List FileReport)

namespace Request

/-- What is left of a reporter when it has done what it was asked for. -/
def perform (reporter : Reporter) : Request → Reporter
  | addSource file text => reporter.addSource file text
  | writeDiagnostic diagnostic => ((Reporter.writeDiagnostic diagnostic).run reporter).2
  | writeDiagnostics diagnostics => ((Reporter.writeDiagnostics diagnostics).run reporter).2
  | writeRun reports => ((Reporter.writeRun reports).run reporter).2

/-- The texts of files that a request registers, in this order. -/
def registered : Request → List (String × String)
  | addSource file text => [(file, text)]
  | writeDiagnostic _ => []
  | writeDiagnostics _ => []
  | writeRun reports => reports.map fun report => (report.file, report.source)

/-- The text of a file that was registered last. -/
def latest? (requests : List Request) (file : String) : Option String :=
  (requests.flatMap registered).reverse.lookup file

/-- The files of a diagnostic with the texts of them that were registered last, each file once. -/
def sourcesFor (requests : List Request) (diagnostic : Diagnostic) : List (String × String) :=
  diagnostic.files.dedup.filterMap fun file => (latest? requests file).map (file, ·)

end Request

/-- A reporter after some requests. -/
def after (reporter : Reporter) (requests : List Request) : Reporter :=
  requests.foldl Request.perform reporter

/-- A request changes what is known of the files by no more than the texts that it registers. -/
theorem kept_perform (h : reporter.Coherent) (request : Request) :
    Kept (reporter.addSources request.registered) (request.perform reporter) := by
  cases request with
  | addSource file text => exact .refl (h.addSource file text)
  | writeDiagnostic diagnostic => exact (steady_writeDiagnostic diagnostic).kept h
  | writeDiagnostics diagnostics => exact (steady_writeDiagnostics diagnostics).kept h
  | writeRun reports =>
    have hkept := kept_writeRun h reports
    rwa [addReports_eq] at hkept

/-- After any requests the texts that were registered are all that is known of the files. -/
theorem kept_after (h : reporter.Coherent) (requests : List Request) :
    Kept (reporter.addSources (requests.flatMap Request.registered)) (reporter.after requests) := by
  induction requests generalizing reporter with
  | nil => exact .refl h
  | cons request requests ih =>
    have hstep := kept_perform h request
    have hrest := (hstep.addSources (requests.flatMap Request.registered)).trans (ih hstep.coherent)
    rwa [← addSources_append, ← List.flatMap_cons] at hrest

theorem text?_after (ink : Ink) (disk : String → Option String) (requests : List Request)
    (file : String) : ((fresh ink disk).after requests).text? file =
      (Request.latest? requests file).or (disk file) := by
  rw [(kept_after (coherent_fresh ink disk) requests).text?, text?_addSources]
  rfl

/-- Entries for the keys that have a value tell the values of these keys. -/
theorem lookup_filterMap {α : Type} (keys : List String) (value? : String → Option α) (key : String) :
    (keys.filterMap fun key => (value? key).map (key, ·)).lookup key =
      if key ∈ keys then value? key else none := by
  induction keys with
  | nil => rfl
  | cons first keys ih =>
    rcases eq_or_ne key first with rfl | hne
    · cases hvalue : value? key with
      | none => simp [hvalue, ih]
      | some value => simp [hvalue]
    · cases hvalue : value? first with
      | none => simp [hvalue, ih, hne]
      | some value => simp [hvalue, ih, hne, lookup_cons_ne hne]

theorem text?_sourcesFor {diagnostic : Diagnostic} (ink : Ink) (disk : String → Option String)
    (requests : List Request) (h : file ∈ diagnostic.files) :
    ((fresh ink disk).addSources (Request.sourcesFor requests diagnostic)).text? file =
      (Request.latest? requests file).or (disk file) := by
  rw [text?_addSources, Request.sourcesFor, ← List.filterMap_reverse,
    lookup_filterMap, if_pos (List.mem_reverse.2 (List.mem_dedup.2 h))]
  rfl

/-- Nothing that a reporter was asked for before shows in what it writes for a diagnostic, the texts
apart that were registered last. A new reporter that is given these, each once, writes the same. -/
theorem diagnosticText_after (ink : Ink) (disk : String → Option String) (requests : List Request)
    (diagnostic : Diagnostic) :
    ((fresh ink disk).after requests).diagnosticText diagnostic =
      ((fresh ink disk).addSources (Request.sourcesFor requests diagnostic)).diagnosticText
        diagnostic := by
  have hnew := coherent_fresh ink disk
  have hafter := kept_after hnew requests
  refine (steady_writeDiagnostic diagnostic).agree hafter.coherent (hnew.addSources _) ⟨?_, ?_⟩
  · rw [hafter.ink, ink_addSources, ink_addSources]
  · intro file hf
    rw [text?_after, text?_sourcesFor ink disk requests hf]

end Report.Reporter

end JavaNames
