/-
Derivations for the readers of single tokens and for loops.
-/
import JavaNames.Proofs.Progress.Ahead
import JavaNames.Proofs.Reading.Rules

namespace JavaNames.Grammar.Reads

variable {ρ : Renaming} {γ δ : Type} {known : Known} {H : List Item}

/-! ## Looking at tokens -/

/-- A look at the tokens to come that sees the same on both sides. -/
theorem look {α : Type} {f g : List Token → α} {k : α → Parse γ} {l : α → Parse δ}
    {G : γ → δ → List Item → Prop} (hf : ∀ ts ts', Alike ρ ts ts' → g ts' = f ts)
    (h : ∀ a, Reads ρ (fun ts => known ts ∧ f ts = a) H (k a) (l a) G) :
    Reads ρ known H (Parse.look f >>= k) (Parse.look g >>= l) G := by
  refine .view (fun a b => b = a) (fun ts ts' _ => hf ts ts') ?_
  rintro a b rfl
  exact h b

theorem kind {k : TokenKind → Parse γ} {l : TokenKind → Parse δ} {G : γ → δ → List Item → Prop}
    (h : ∀ a, Reads ρ (fun ts => known ts ∧ headKind ts = a) H (k a) (l a) G) :
    Reads ρ known H (Parse.kind >>= k) (Parse.kind >>= l) G :=
  .look (fun _ _ h => h.headKind_eq) h

/-- A look at the tokens to come of which only the answer counts. -/
theorem glance {α : Type} {f g : List Token → α} {k : α → Parse γ} {l : α → Parse δ}
    {G : γ → δ → List Item → Prop} (hf : ∀ ts ts', Alike ρ ts ts' → g ts' = f ts)
    (h : ∀ a, Reads ρ known H (k a) (l a) G) :
    Reads ρ known H (Parse.look f >>= k) (Parse.look g >>= l) G :=
  .look hf fun a => .know (fun _ hk => hk.1) (h a)

theorem isAt (kind : TokenKind) {k : Bool → Parse γ} {l : Bool → Parse δ}
    {G : γ → δ → List Item → Prop} (h : ∀ b, Reads ρ known H (k b) (l b) G) :
    Reads ρ known H (Parse.isAt kind >>= k) (Parse.isAt kind >>= l) G :=
  glance (fun _ _ h => by rw [h.headKind_eq]) h

/-! ## Reports -/

/-- A report about the next token, and what follows it. -/
theorem telling {k : Parse γ} {l : Parse δ} {G : γ → δ → List Item → Prop} {rule : Rule}
    (arguments arguments' : Token → List String) (hr : ∀ token, Telling token rule (arguments token))
    (h : Reads ρ (fun _ => True) H k l G) :
    Reads ρ known H
      (Parse.token >>= fun t => Parse.report rule t.start t.stop (arguments t) >>= fun _ => k)
      (Parse.token >>= fun t => Parse.report rule t.start t.stop (arguments' t) >>= fun _ => l) G := by
  simpa only [bind_assoc] using skip (.report rule arguments arguments' hr) fun _ => h

theorem unexpected : Reads ρ known [] Parse.unexpected Parse.unexpected same :=
  .report _ _ _ fun _ => .unexpected

/-- Something that is not supported at the next token is reported, and what follows. -/
theorem unsupported {k : Parse γ} {l : Parse δ} {G : γ → δ → List Item → Prop} {what : String}
    (hw : ∀ token, Telling token .unsupportedSyntax [what]) (h : Reads ρ (fun _ => True) H k l G) :
    Reads ρ known H (Parse.token >>= fun t => Parse.unsupported t what >>= fun _ => k)
      (Parse.token >>= fun t => Parse.unsupported t what >>= fun _ => l) G :=
  telling (fun _ => [what]) (fun _ => [what]) hw h

/-! ## Reading tokens -/

theorem advanceBy (n : Nat) : Reads ρ known [] (Parse.advanceBy n) (Parse.advanceBy n) same := by
  induction n generalizing known with
  | zero => exact give trivial .nil
  | succ n ih => exact skip .advance fun _ => ih

theorem accept (kind : TokenKind) :
    Reads ρ known [] (Parse.accept kind) (Parse.accept kind) same := by
  unfold Parse.accept
  refine isAt kind fun b => ite (fun _ => ?_) fun _ => give trivial .nil
  exact skip .advance fun _ => give trivial .nil

theorem expect (kind : TokenKind) :
    Reads ρ known [] (Parse.expect kind) (Parse.expect kind) same := by
  unfold Parse.expect
  refine skip (accept kind) fun b => ite (fun _ => give trivial .nil) fun _ => ?_
  exact telling _ _ (fun _ => .expected kind) (give trivial .nil)

theorem require (kind : TokenKind) :
    Reads ρ known [] (Parse.require kind) (Parse.require kind) same :=
  skip (expect kind) fun _ => give trivial .nil

/-! ## Loops -/

theorem repeatStep {step step' : Parse Bool} (h : Reads ρ (fun _ => True) [] step step' same) :
    Reads ρ known [] (Parse.repeatStep step) (Parse.repeatStep step') same := by
  refine .iterate ?_ ⟨rfl, trivial, rfl⟩
  rintro _ _ _ ⟨rfl, -, rfl⟩
  exact skip h fun _ => .ret ⟨rfl, rfl, trivial, rfl⟩

/-- A loop that goes on from one value to the next and keeps what is in hand with it. -/
theorem loop {σ : Type} {step step' : σ → Parse (σ × Bool)} {f : σ → List Item} {g : σ → List Item}
    {a : σ}
    (h : ∀ a, Reads ρ (fun _ => True) (f a) (step a) (step' a) (gives (fun _ => True) fun x => f x.1))
    (hH : Weaker H (f a)) (hg : ∀ a, Weaker (f a) (g a)) :
    Reads ρ known H (Parse.iterate step a) (Parse.iterate step' a) (gives (fun _ => True) g) := by
  refine .weaken hH (.post (.iterate (I := gives (fun _ => True) f) ?_ ⟨rfl, trivial, rfl⟩) ?_)
  · rintro a _ _ ⟨rfl, -, rfl⟩
    refine .post (h a) ?_
    rintro x _ _ ⟨rfl, -, rfl⟩
    exact ⟨_, .refl _, rfl, rfl, trivial, rfl⟩
  · rintro a _ _ ⟨rfl, -, rfl⟩
    exact ⟨_, hg a, rfl, trivial, rfl⟩

/-- A reader whose result is passed on to a loop. -/
theorem thenGive {α β : Type} {p q : Parse α} {g : α → β} {f : α → List Item} {F : β → List Item}
    (h : Reads ρ known H p q (gives (fun _ => True) f)) (hf : ∀ a, Weaker (f a) (F (g a))) :
    Reads ρ known H (do let a ← p; return g a) (do let a ← q; return g a)
      (gives (fun _ => True) F) := by
  refine .seq h ?_
  rintro a _ _ ⟨rfl, -, rfl⟩
  exact give trivial (hf a)

/-- A loop that collects what its step gives. -/
theorem collect {step step' : Parse (Link × Bool)} (role : Role)
    (h : Reads ρ (fun _ => True) [] step step'
      (gives (fun _ => True) fun x => pieces role 0 [x.1])) :
    Reads ρ known [] (Parse.collect step) (Parse.collect step') (many role) := by
  refine .iterate ?_ ⟨rfl, by simp, rfl⟩
  rintro links _ _ ⟨rfl, hlinks, rfl⟩
  refine next h ?_
  rintro ⟨link, again⟩ -
  refine .ret ⟨rfl, rfl, ?_, ?_⟩
  · cases link with
    | none => exact hlinks
    | some id =>
      intro link hl
      rcases List.mem_append.1 hl with hl | hl
      · exact hlinks link hl
      · simp_all
  · cases link with
    | none => simp
    | some id => simp [pieces_append]

theorem qualifiedName :
    Reads ρ known [] Parse.qualifiedName Parse.qualifiedName spelled := by
  unfold Parse.qualifiedName
  refine isAt _ fun b => ite (fun _ => ?_) fun _ => ?_
  · refine .token fun first first' _ _ => skip .advance fun _ => .iterate ?_ rfl
    rintro name name' _ rfl
    refine glance (fun _ _ h => by rw [h.headKind_eq, h.kindAt_eq]) fun b => ite (fun _ => ?_) fun _ => ?_
    · refine skip .advance fun _ => .token fun next next' _ _ => ?_
      exact skip .advance fun _ => .ret ⟨rfl, rfl⟩
    · exact .ret ⟨rfl, rfl⟩
  · exact skip (require _) fun _ => .ret rfl

/-! ## Names and types -/

theorem identifier : Reads ρ known [] Parse.identifier Parse.identifier (one .name) := by
  unfold Parse.identifier
  refine look (fun _ _ h => by rw [h.headKind_eq]) fun b => ite (fun hb => ?_) fun _ => ?_
  · exact .word fun ts hts => by simpa [hb] using hts.2
  · exact skip (require _) fun _ => give trivial .nil

/-- A type, which is there if there is a reason for which one comes next. -/
theorem typeWhere (allowAlternatives : Bool) {reason : Prop}
    (h : ∀ ts, known ts → reason → (afterType? ts).isSome) :
    Reads ρ known [] (Parse.typeReference allowAlternatives) (Parse.typeReference allowAlternatives)
      (gives (fun type => reason → type.isSome) fun type => pieces .type 0 [type]) := by
  unfold Parse.typeReference
  refine .offset fun o o' => .view (fun found found' => AlikeAfter ρ found found' ∧
    (reason → found.isSome)) (fun ts _ hk ha => ⟨ha.afterType?, h ts hk.1⟩) ?_
  rintro _ _ ⟨@⟨rest, rest', hrest⟩ | _, hsome⟩
  · refine .post (.typeNode o o' ?_ fun ts hts => ⟨?_, hts.1.2⟩) ?_
    · split
      · exact hrest.afterAlternatives
      · exact hrest
    · refine Nat.lt_of_le_of_lt ?_ (length_lt_of_afterType? hts.2)
      split
      · exact (suffix_afterAlternatives rest).length_le
      · exact Nat.le_refl _
    · rintro type _ _ ⟨rfl, hs, rfl⟩
      exact ⟨_, .refl _, rfl, fun _ => hs, rfl⟩
  · exact skip (require _) fun _ => give (fun hr => nomatch hsome hr) (.empty _)

theorem typeReference (allowAlternatives : Bool) :
    Reads ρ known [] (Parse.typeReference allowAlternatives)
      (Parse.typeReference allowAlternatives) (one .type) :=
  (typeWhere allowAlternatives fun _ _ (h : False) => h.elim).any

end JavaNames.Grammar.Reads
