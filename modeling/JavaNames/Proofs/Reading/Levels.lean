/-
The constructs around a reader. Main statement: as long as the nesting does not pass the limit, a reader
does inside any number of nested constructs what it does outside of them.

A property that holds of readers that are blind to the constructs around, and of readers that are put
together when it holds of their parts, holds of every reader of the grammar.
-/
import JavaNames.Proofs.Reading.Unit

namespace JavaNames.Grammar

/-- The state inside a number of nested constructs more. -/
def State.deeper (s : State) (levels : Nat) : State := { s with depth := s.depth + levels }

namespace State

theorem deeper_deeper (s : State) (levels more : Nat) :
    (s.deeper levels).deeper more = s.deeper (levels + more) := by
  simp only [deeper, Nat.add_assoc]

theorem advance_deeper (s : State) (levels : Nat) :
    (s.deeper levels).advance = s.advance.deeper levels := by
  obtain ⟨tokens, consumed, lastStop, tree, diagnostics, depth, tooDeep⟩ := s
  cases tokens <;> rfl

theorem tooDeep_advance (s : State) : s.advance.tooDeep = s.tooDeep := by
  unfold advance
  split <;> rfl

theorem enter_deeper (s : State) (levels : Nat) :
    (s.deeper levels).enter = s.enter.deeper levels := by
  simp only [deeper, enter, Nat.add_right_comm]

theorem leave_deeper {s : State} (levels : Nat) (h : 0 < s.depth) :
    (s.deeper levels).leave = s.leave.deeper levels := by
  have hdepth : s.depth + levels - 1 = s.depth - 1 + levels := by omega
  simp only [deeper, leave, hdepth]

theorem tooDeep_advanced (n : Nat) (s : State) : (advance^[n] s).tooDeep = s.tooDeep := by
  induction n generalizing s with
  | zero => rfl
  | succ n ih => exact (ih s.advance).trans (tooDeep_advance s)

theorem depth_advanced (n : Nat) (s : State) : (advance^[n] s).depth = s.depth := by
  induction n generalizing s with
  | zero => rfl
  | succ n ih => exact (ih s.advance).trans s.depth_advance

theorem advanced_deeper (n : Nat) (s : State) (levels : Nat) :
    advance^[n] (s.deeper levels) = (advance^[n] s).deeper levels := by
  induction n generalizing s with
  | zero => rfl
  | succ n ih =>
    rw [Function.iterate_succ_apply, Function.iterate_succ_apply, advance_deeper, ih]

end State

/-! ## Readers that are blind to what is around -/

/-- A reader does from a state what it does inside any number of constructs more: it enters none and does
not look how many are around. -/
structure Blind {α : Type} (input : Input) (p : Parse α) (s : State) : Prop where
  depth : ((p.run input).run s).2.depth = s.depth
  tooDeep : ((p.run input).run s).2.tooDeep = s.tooDeep
  deeper : ∀ levels, (p.run input).run (s.deeper levels) =
    (((p.run input).run s).1, ((p.run input).run s).2.deeper levels)

namespace Blind

variable {α : Type} {input : Input} {s : State}

theorem of_run {p : Parse α} {a : State → α} {f : State → State}
    (hp : ∀ s, (p.run input).run s = (a s, f s)) (ha : ∀ levels s, a (s.deeper levels) = a s)
    (hf : ∀ levels s, f (s.deeper levels) = (f s).deeper levels) (hd : ∀ s, (f s).depth = s.depth)
    (hn : ∀ s, (f s).tooDeep = s.tooDeep) : Blind input p s := by
  refine ⟨?_, ?_, fun levels => ?_⟩
  · rw [hp, hd]
  · rw [hp, hn]
  · rw [hp, hp, ha, hf]

/-- A reader that only asks for something that does not depend on the constructs around. -/
theorem of_ask {p : Parse α} {a : State → α} (hp : ∀ s, (p.run input).run s = (a s, s))
    (ha : ∀ levels s, a (s.deeper levels) = a s) : Blind input p s :=
  of_run hp ha (fun _ _ => rfl) (fun _ => rfl) fun _ => rfl

theorem ret (a : α) : Blind input (pure a) s := of_ask (fun _ => rfl) fun _ _ => rfl

theorem advance : Blind input Parse.advance s :=
  of_run (fun _ => rfl) (fun _ _ => rfl) (fun levels s => s.advance_deeper levels)
    (fun s => s.depth_advance) fun s => s.tooDeep_advance

theorem report (rule : Rule) (arguments : Token → List String) : Blind input
    (Parse.token >>= fun t => Parse.report rule t.start t.stop (arguments t)) s :=
  of_run (fun _ => rfl) (fun _ _ => rfl) (fun _ _ => rfl) (fun _ => rfl) fun _ => rfl

theorem word : Blind input Parse.word s := by
  refine .of_run (a := fun s => some s.advance.tree.size) (f := fun s =>
    let first := s.tokens.headD (.endOfFile input.stop)
    s.advance.add .identifier first.start first.stop (.name first.text)) (fun _ => rfl) ?_ ?_ ?_ ?_
  · intro levels s
    rw [State.advance_deeper]
    rfl
  · intro levels s
    dsimp only
    rw [State.advance_deeper]
    rfl
  · exact fun s => s.depth_advance
  · exact fun s => s.tooDeep_advance

theorem typeNode (rest : List Token) (o : Nat) :
    Blind input (do Parse.advanceTo rest; Parse.typeNode o) s := by
  have hrun (t : State) :
      ((do Parse.advanceTo rest; Parse.typeNode o : Parse Link).run input).run t =
        ((Parse.typeNode o).run input).run (State.advance^[t.tokens.length - rest.length] t) := by
    rw [ReaderT.run_bind, StateT.run_bind, Keeps.run_advanceTo]
    rfl
  refine ⟨?_, ?_, fun levels => ?_⟩
  · rw [hrun]
    exact State.depth_advanced _ s
  · rw [hrun]
    exact State.tooDeep_advanced _ s
  · rw [hrun, hrun, show (s.deeper levels).tokens = s.tokens from rfl, State.advanced_deeper]
    rfl

theorem toTypeReference (link : Link) : Blind input (Parse.toTypeReference link) s := by
  cases link with
  | none => exact ret ()
  | some id =>
    have hnode (levels : Nat) : (s.deeper levels).tree.node? id = s.tree.node? id := rfl
    refine ⟨?_, ?_, fun levels => ?_⟩
    · rw [Keeps.run_toTypeReference]
      split <;> rfl
    · rw [Keeps.run_toTypeReference]
      split <;> rfl
    · rw [Keeps.run_toTypeReference, Keeps.run_toTypeReference, hnode]
      split <;> rfl

theorem nodeText (link : Link) : Blind input (Parse.nodeText link) s := by
  refine .of_ask (a := fun s => (((Parse.nodeText link).run input).run s).1) ?_ ?_
  · exact fun s => Prod.ext rfl (Keeps.run_nodeText link input s)
  · intro levels s
    have hbind (f : Input → Option Node → Parse String) (t : State) :
        ((do f (← read) (← Parse.nodeAt link) : Parse String).run input).run t =
          ((f input (t.tree.at? link)).run input).run t := rfl
    have htree : (s.deeper levels).tree = s.tree := rfl
    refine (congrArg Prod.fst (hbind _ (s.deeper levels))).trans
      (Eq.trans ?_ (congrArg Prod.fst (hbind _ s)).symm)
    rw [htree]
    cases s.tree.at? link <;> rfl

theorem finish (kind : NodeKind) (o : Nat) (payload : Payload) :
    Blind input (Parse.finish kind o payload) s :=
  of_run (fun _ => rfl) (fun _ _ => rfl) (fun _ _ => rfl) (fun _ => rfl) fun _ => rfl

end Blind

/-! ## Readers that are put together -/

/-- Nothing is kept but that the moves are the same. -/
theorem Invariant.trivial (ρ : Renaming) (input : Input) :
    Invariant ρ input input fun _ _ _ => True := by
  constructor <;> intros <;> exact True.intro

/-- What a derivation says of the result of a reader, and that it leaves as many constructs as it
enters. -/
theorem Reads.exists_result {α β : Type} {known : Known} {H : List Item} {p : Parse α} {q : Parse β}
    {G : α → β → List Item → Prop} (h : Reads .id known H p q G) (input : Input) {s : State}
    (hs : known s.tokens) :
    (∃ a L, G a ((q.run input).run s).1 L) ∧ ((q.run input).run s).2.depth = s.depth := by
  obtain ⟨L, hG, hdepth, halike, -⟩ :=
    h.keeps (.trivial .id input) rfl s s [] (.refl s) hs True.intro
  exact ⟨⟨_, L, hG⟩, halike.depth.trans hdepth⟩

/-- A property of readers that holds of those that are blind to the constructs around, and of readers that
are put together when it holds of their parts. -/
structure Composes (P : {α : Type} → Known → Parse α → Prop) : Prop where
  blind {α : Type} {known : Known} {p : Parse α} : (∀ input s, Blind input p s) → P known p
  know {α : Type} {known known' : Known} {p : Parse α} : (∀ ts, known ts → known' ts) →
    P known' p → P known p
  seq {α β : Type} {known : Known} {p : Parse α} {k : α → Parse β} {Q : α → Prop} : P known p →
    (∀ input s, known s.tokens → Q ((p.run input).run s).1) →
    (∀ a, Q a → P (fun _ => True) (k a)) → P known (p >>= k)
  /-- A reader that only asks for something that does not depend on the constructs around. -/
  ask {α β : Type} {known : Known} {p : Parse α} {k : α → Parse β} {a : Input → State → α} :
    (∀ input s, (p.run input).run s = (a input s, s)) →
    (∀ input levels s, a input (s.deeper levels) = a input s) →
    (∀ input s, known s.tokens → P (fun ts => ts = s.tokens) (k (a input s))) → P known (p >>= k)
  nested {α : Type} {known : Known} {p : Parse α} : P known p →
    (∀ input s, known s.tokens → ((p.run input).run s).2.depth = s.depth) →
    P known (Parse.nested p)

namespace Composes

variable {P : {α : Type} → Known → Parse α → Prop} (hP : Composes P) {known : Known}

include hP

theorem iterate {σ : Type} {step : σ → Parse (σ × Bool)} {Q : σ → Prop} {a : σ}
    (h : ∀ a, Q a → P (fun _ => True) (step a))
    (hQ : ∀ a, Q a → ∀ input s, Q (((step a).run input).run s).1.1) (ha : Q a) :
    P known (Parse.iterate step a) := by
  have bounded (bound : Nat) : ∀ a, Q a → P (fun _ => True) (Parse.iterateAtMost step bound a) := by
    induction bound with
    | zero => exact fun a _ => hP.blind fun _ _ => .ret a
    | succ bound ih =>
      intro a ha
      refine hP.seq (h a ha) (Q := fun x => Q x.1) (fun input s _ => hQ a ha input s) ?_
      rintro ⟨next, more⟩ hnext
      dsimp only
      split
      · exact ih next hnext
      · exact hP.blind fun _ _ => .ret next
  unfold Parse.iterate
  refine hP.ask (a := fun input _ => input) (fun _ _ => rfl) (fun _ _ _ => rfl) fun input s _ => ?_
  exact hP.know (fun _ _ => True.intro) (bounded input.budget a ha)

theorem nameOrCall {r : Readers} {o : Nat} (hr : P (fun _ => True) (Parse.arguments r)) :
    P known (Parse.nameOrCall r o) := by
  unfold Parse.nameOrCall
  refine hP.ask (a := fun input s => s.tokens.headD (.endOfFile input.stop)) (fun _ _ => rfl)
    (fun _ _ _ => rfl) fun input s _ => ?_
  refine hP.seq (Q := fun _ => True) (hP.blind fun _ _ => .advance) (fun _ _ _ => trivial) fun _ _ => ?_
  refine hP.ask (a := fun _ s => decide (headKind s.tokens = .mark .openParen)) (fun _ _ => rfl)
    (fun _ _ _ => rfl) fun input s _ => hP.know (fun _ _ => True.intro) ?_
  split
  · refine hP.seq (Q := fun _ => True) hr (fun _ _ _ => trivial) fun links _ => ?_
    exact hP.blind fun _ _ => .finish _ _ _
  · exact hP.blind fun _ _ => .finish _ _ _

end Composes

/-- Such a property holds of every reader of the grammar. -/
theorem Reads.composes {P : {α : Type} → Known → Parse α → Prop} (hP : Composes P) {α β : Type}
    {known : Known} {H : List Item} {p : Parse α} {q : Parse β} {G : α → β → List Item → Prop}
    (h : Reads .id known H p q G) : P known q := by
  induction h with
  | ret h => exact hP.blind fun _ _ => .ret _
  | @seq _ _ _ _ _ _ _ _ _ _ F _ hp _ ihp ihk =>
    refine hP.seq ihp (Q := fun b => ∃ a L, F a b L) (fun input s hs => (hp.exists_result input hs).1) ?_
    rintro b ⟨a, L, hF⟩
    exact ihk a b L hF
  | frame R _ ih => exact ih
  | weaken hw _ ih => exact ih
  | post _ hw ih => exact ih
  | know hk _ ih => exact hP.know hk ih
  | @view _ _ _ _ _ _ f g _ _ _ Q hf _ ih =>
    refine hP.ask (a := fun _ s => g s.tokens) (fun _ _ => rfl) (fun _ _ _ => rfl) fun input s hs => ?_
    have hk := ih (f s.tokens) (g s.tokens) (hf _ _ hs (.refl _))
    exact hP.know (fun ts hts => by subst hts; exact ⟨hs, rfl⟩) hk
  | token _ ih =>
    refine hP.ask (a := fun input s => s.tokens.headD (.endOfFile input.stop)) (fun _ _ => rfl)
      (fun _ _ _ => rfl) fun input s hs => ?_
    exact hP.know (fun ts hts => hts ▸ hs) (ih _ _ rfl fun _ => rfl)
  | offset _ ih =>
    refine hP.ask (a := fun input s => s.offset input) (fun _ _ => rfl) (fun _ _ _ => rfl)
      fun input s hs => ?_
    have hstarts := s.startsAt_offset input
    exact hP.know (fun ts hts => by subst hts; exact ⟨hs, hstarts⟩) (ih (s.offset input) _)
  | position _ ih =>
    refine hP.ask (a := fun _ s => s.consumed) (fun _ _ => rfl) (fun _ _ _ => rfl)
      fun input s hs => ?_
    exact hP.know (fun ts hts => hts ▸ hs) (ih s.consumed)
  | aborted _ ih =>
    refine hP.ask (a := fun _ s => s.tooDeep.isSome) (fun _ _ => rfl) (fun _ _ _ => rfl)
      fun input s hs => ?_
    exact hP.know (fun ts hts => hts ▸ hs) (ih s.tooDeep.isSome)
  | nameAt link _ ih =>
    refine hP.ask (a := fun _ s => s.tree.nameOf? link) (fun _ _ => rfl) (fun _ _ _ => rfl)
      fun input s hs => ?_
    have hname := ih (s.tree.nameOf? link)
    rw [Renaming.map_rename_id] at hname
    exact hP.know (fun ts hts => hts ▸ hs) hname
  | nodeText link => exact hP.blind fun _ _ => .nodeText link
  | readers _ ih =>
    refine hP.ask (a := fun input _ => Parse.readersTo (8 * input.budget)) (fun _ _ => rfl)
      (fun _ _ _ => rfl) fun input s hs => ?_
    exact hP.know (fun ts hts => hts ▸ hs) (ih _)
  | advance => exact hP.blind fun _ _ => .advance
  | report rule arguments arguments' hr => exact hP.blind fun _ _ => .report rule arguments'
  | nested hp ih => exact hP.nested ih fun input s hs => (hp.exists_result input hs).2
  | @iterate _ _ _ _ _ _ I _ _ h hI ih =>
    refine hP.iterate (Q := fun b => ∃ a L, I a b L) ?_ ?_ ⟨_, _, hI⟩
    · rintro b ⟨a, L, hL⟩
      exact ih a b L hL
    · rintro b ⟨a, L, hL⟩ input s
      obtain ⟨x, M, -, hM⟩ := ((h a b L hL).exists_result input (s := s) True.intro).1
      exact ⟨_, M, hM⟩
  | word h => exact hP.blind fun _ _ => .word
  | typeNode o o' hrest h => exact hP.blind fun _ _ => .typeNode _ o'
  | toTypeReference link => exact hP.blind fun _ _ => .toTypeReference link
  | nameOrCall h _ ih => exact hP.nameOrCall ih
  | finish hk hg hf hp => exact hP.blind fun _ _ => .finish _ _ _

/-! ## Readers inside of constructs -/

/-- A reader that is not refused inside a number of nested constructs does the same outside of them. -/
def Lowers {α : Type} (known : Known) (p : Parse α) : Prop :=
  ∀ (input : Input) (levels : Nat) (s : State), known s.tokens →
    ((p.run input).run (s.deeper levels)).2.tooDeep = none →
    s.tooDeep = none ∧ (p.run input).run (s.deeper levels) =
      (((p.run input).run s).1, ((p.run input).run s).2.deeper levels)

namespace Lowers

variable {α β : Type} {known : Known}

theorem seq {p : Parse α} {k : α → Parse β} (hp : Lowers known p) {Q : α → Prop}
    (hq : ∀ input s, known s.tokens → Q ((p.run input).run s).1)
    (hk : ∀ a, Q a → Lowers (fun _ => True) (k a)) : Lowers known (p >>= k) := by
  intro input levels s hs h
  have hrun (t : State) : ((p >>= k).run input).run t =
      ((k ((p.run input).run t).1).run input).run ((p.run input).run t).2 := rfl
  rw [hrun] at h
  -- where the limit has been passed behind the first reader, it has been passed behind both
  have hbehind := (hk _ (hq input (s.deeper levels) hs) input 0 _ trivial h).1
  obtain ⟨hnone, heq⟩ := hp input levels s hs hbehind
  rw [heq] at h
  obtain ⟨-, heq'⟩ := hk _ (hq input s hs) input levels _ trivial h
  rw [hrun, hrun, heq]
  exact ⟨hnone, heq'⟩

/-- A reader that only asks for something that does not depend on the constructs around. -/
theorem ask {p : Parse α} {k : α → Parse β} {a : Input → State → α}
    (hp : ∀ input s, (p.run input).run s = (a input s, s))
    (ha : ∀ input levels s, a input (s.deeper levels) = a input s)
    (hk : ∀ input s, known s.tokens → Lowers (fun ts => ts = s.tokens) (k (a input s))) :
    Lowers known (p >>= k) := by
  intro input levels s hs h
  have hrun (t : State) : ((p >>= k).run input).run t = ((k (a input t)).run input).run t := by
    rw [ReaderT.run_bind, StateT.run_bind, hp]
    rfl
  rw [hrun, ha] at h
  rw [hrun, hrun, ha]
  exact hk input s hs input levels s rfl h

/-- A reader that neither enters a construct nor looks how many are around. -/
theorem blind {p : Parse α} (hp : ∀ input s, Blind input p s) : Lowers known p := by
  intro input levels s _ h
  rw [(hp input s).deeper] at h
  exact ⟨(hp input s).tooDeep.symm.trans h, (hp input s).deeper levels⟩

theorem know {known' : Known} {p : Parse α} (hk : ∀ ts, known ts → known' ts)
    (h : Lowers known' p) : Lowers known p :=
  fun input levels s hs => h input levels s (hk _ hs)

/-- Where a construct is entered inside of others, it is entered outside of them. -/
theorem nested {p : Parse α} (hp : Lowers known p)
    (hd : ∀ input s, known s.tokens → ((p.run input).run s).2.depth = s.depth) :
    Lowers known (Parse.nested p) := by
  intro input levels s hs h
  rw [Keeps.run_nested] at h
  rw [Keeps.run_nested, Keeps.run_nested]
  have htooDeep : (s.deeper levels).tooDeep = s.tooDeep := rfl
  by_cases hnone : s.tooDeep.isSome
  · rw [htooDeep, if_pos hnone] at h
    rw [show s.tooDeep = none from h] at hnone
    cases hnone
  · by_cases hroom : maxNesting ≤ (s.deeper levels).depth
    · rw [htooDeep, if_neg hnone, if_pos hroom] at h
      cases h
    · have hroom' : ¬maxNesting ≤ s.depth := fun hle => hroom (Nat.le_trans hle (Nat.le_add_right _ _))
      rw [htooDeep, if_neg hnone, if_neg hroom, State.enter_deeper] at h
      obtain ⟨-, heq⟩ := hp input levels s.enter hs h
      have hpos : 0 < ((p.run input).run s.enter).2.depth := by
        rw [hd input s.enter hs]
        exact Nat.succ_pos _
      rw [htooDeep, if_neg hnone, if_neg hroom, if_neg hnone, if_neg hroom', State.enter_deeper, heq,
        State.leave_deeper levels hpos]
      exact ⟨Option.not_isSome_iff_eq_none.1 hnone, rfl⟩

theorem composes : Composes Lowers where
  blind := blind
  know := know
  seq hp hq hk := hp.seq hq hk
  ask := ask
  nested := nested

end Lowers

/-- As long as the nesting does not pass the limit, a reader of the grammar does inside any number of
nested constructs what it does outside of them. -/
theorem Reads.lowers {α β : Type} {known : Known} {H : List Item} {p : Parse α} {q : Parse β}
    {G : α → β → List Item → Prop} (h : Reads .id known H p q G) : Lowers known q :=
  h.composes Lowers.composes

end JavaNames.Grammar
