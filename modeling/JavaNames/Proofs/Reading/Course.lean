/-
What happens to the count of nested constructs while a reader runs: a construct is entered, it is left,
or it is refused because as many are open as may be. Main statement: a reader of the grammar has such a
course from every state, and behind it the count is what it was before.
-/
import JavaNames.Proofs.Reading.Levels

namespace JavaNames.Grammar

/-! ## What happens to the count -/

/-- What happens to the count of nested constructs. -/
inductive Event where
  | entered
  | left
  | refused (offset : Nat)
deriving DecidableEq

/-- By how much the count changes. -/
def Event.change : Event → Int
  | entered => 1
  | left => -1
  | refused _ => 0

/-- How many constructs have been entered and not left. -/
def standing : List Event → Int
  | [] => 0
  | event :: events => event.change + standing events

/-- The offsets at which a construct has been refused. -/
def refusals (events : List Event) : List Nat :=
  events.filterMap fun event => match event with
    | .refused offset => some offset
    | _ => none

theorem mem_refusals {offset : Nat} {events : List Event} :
    offset ∈ refusals events ↔ .refused offset ∈ events := by
  rw [refusals, List.mem_filterMap]
  constructor
  · rintro ⟨event, he, h⟩
    split at h
    · cases h
      exact he
    · cases h
  · exact fun h => ⟨_, h, rfl⟩

/-- Events take the count from one number to another: a construct is entered only below the limit, and it
is refused only at the limit. -/
inductive Tally : Nat → List Event → Nat → Prop
  | nil {count : Nat} : Tally count [] count
  | entered {count final : Nat} {events : List Event} : count < maxNesting →
    Tally (count + 1) events final → Tally count (.entered :: events) final
  | left {count final : Nat} {events : List Event} : Tally count events final →
    Tally (count + 1) (.left :: events) final
  | refused {final : Nat} {events : List Event} (offset : Nat) : Tally maxNesting events final →
    Tally maxNesting (.refused offset :: events) final

namespace Tally

variable {count middle final : Nat} {events more : List Event}

theorem append (h : Tally count events middle) (hm : Tally middle more final) :
    Tally count (events ++ more) final := by
  induction h with
  | nil => exact hm
  | entered hlt _ ih => exact .entered hlt (ih hm)
  | left _ ih => exact .left (ih hm)
  | refused offset _ ih => exact .refused offset (ih hm)

/-- What happens to the count can be cut anywhere. -/
theorem of_append (h : Tally count (events ++ more) final) :
    ∃ middle, Tally count events middle ∧ Tally middle more final := by
  induction events generalizing count with
  | nil => exact ⟨count, .nil, h⟩
  | cons event events ih =>
    cases h with
    | entered hlt h =>
      obtain ⟨middle, hevents, hmore⟩ := ih h
      exact ⟨middle, .entered hlt hevents, hmore⟩
    | left h =>
      obtain ⟨middle, hevents, hmore⟩ := ih h
      exact ⟨middle, .left hevents, hmore⟩
    | refused offset h =>
      obtain ⟨middle, hevents, hmore⟩ := ih h
      exact ⟨middle, .refused offset hevents, hmore⟩

theorem standing_eq (h : Tally count events final) : count + standing events = final := by
  induction h with
  | nil => simp only [standing, Int.add_zero]
  | entered _ _ ih => simp only [standing, Event.change]; omega
  | left _ ih => simp only [standing, Event.change]; omega
  | refused offset _ ih => simp only [standing, Event.change]; omega

/-- Where a construct is refused, as many are open as may be. -/
theorem standing_of_refused {offset : Nat} (h : Tally 0 (events ++ .refused offset :: more) final) :
    standing events = maxNesting := by
  obtain ⟨middle, hevents, hmore⟩ := h.of_append
  cases hmore
  simpa using hevents.standing_eq

end Tally

/-! ## Courses -/

/-- What happens to the count while a reader runs from a state. A reader does nothing to it where it is
blind to the constructs around, readers that are put together do one thing after the other, and a nested
construct is entered or refused. -/
inductive Course (input : Input) : {α : Type} → Parse α → State → List Event → Prop
  | blind {α : Type} {p : Parse α} {s : State} : Blind input p s → Course input p s []
  | seq {α β : Type} {p : Parse α} {k : α → Parse β} {s : State} {events more : List Event} :
    Course input p s events →
    Course input (k ((p.run input).run s).1) ((p.run input).run s).2 more →
    Course input (p >>= k) s (events ++ more)
  | refused {α : Type} {p : Parse α} {s : State} : s.tooDeep = none → maxNesting ≤ s.depth →
    Course input (Parse.nested p) s [.refused (s.offset input)]
  | entered {α : Type} {p : Parse α} {s : State} {events : List Event} : s.tooDeep = none →
    s.depth < maxNesting → Course input p s.enter events →
    Course input (Parse.nested p) s (.entered :: events ++ [.left])

namespace Course

variable {input : Input} {α : Type} {p : Parse α} {s : State} {events : List Event}

theorem run_entered (hn : s.tooDeep = none) (hd : s.depth < maxNesting) :
    (((Parse.nested p).run input).run s).2 = ((p.run input).run s.enter).2.leave := by
  rw [Keeps.run_nested, if_neg (by simp [hn]), if_neg (Nat.not_le.2 hd)]

theorem run_refused (hn : s.tooDeep = none) (hd : maxNesting ≤ s.depth) :
    (((Parse.nested p).run input).run s).2 = s.refuse (s.offset input) := by
  rw [Keeps.run_nested, if_neg (by simp [hn]), if_pos hd]

/-- The count is what it was before. -/
theorem depth_eq (h : Course input p s events) : ((p.run input).run s).2.depth = s.depth := by
  induction h with
  | blind h => exact h.depth
  | seq _ _ ihp ihk => exact ihk.trans ihp
  | refused hn hd => rw [run_refused hn hd]; rfl
  | entered hn hd _ ih =>
    rw [run_entered hn hd]
    exact congrArg (· - 1) ih

/-- A construct is entered below the limit and refused at the limit, and each one that is entered is
left. -/
theorem tally (h : Course input p s events) (hs : s.depth ≤ maxNesting) :
    Tally s.depth events s.depth := by
  induction h with
  | blind _ => exact .nil
  | seq hp _ ihp ihk =>
    rw [hp.depth_eq] at ihk
    exact (ihp hs).append (ihk hs)
  | refused _ hd =>
    rw [Nat.le_antisymm hs hd]
    exact .refused _ .nil
  | entered _ hd _ ih => exact .entered hd ((ih hd).append (.left .nil))

/-- The place that is kept is the first at which a construct has been refused, and after it none is. -/
theorem tooDeep_eq (h : Course input p s events) :
    ((p.run input).run s).2.tooDeep.toList = s.tooDeep.toList ++ refusals events := by
  induction h with
  | blind h => rw [h.tooDeep, refusals, List.filterMap_nil, List.append_nil]
  | @seq _ _ p k s events more _ _ ihp ihk =>
    rw [refusals, List.filterMap_append, ← List.append_assoc]
    exact ihk.trans (congrArg (· ++ refusals more) ihp)
  | refused hn hd =>
    rw [run_refused hn hd, hn]
    rfl
  | @entered _ p s events hn hd _ ih =>
    have hevents : refusals (.entered :: events ++ [.left]) = refusals events := by
      simp [refusals]
    rw [run_entered hn hd, hevents]
    exact ih

end Course

/-- Readers that make moves have a course from every state. -/
def Coursed {α : Type} (known : Known) (p : Parse α) : Prop :=
  ∀ (input : Input) (s : State), known s.tokens → ∃ events, Course input p s events

namespace Coursed

variable {α β : Type} {known : Known}

theorem blind {p : Parse α} (hp : ∀ input s, Blind input p s) : Coursed known p :=
  fun input s _ => ⟨[], .blind (hp input s)⟩

theorem know {known' : Known} {p : Parse α} (hk : ∀ ts, known ts → known' ts)
    (h : Coursed known' p) : Coursed known p :=
  fun input s hs => h input s (hk _ hs)

theorem seq {p : Parse α} {k : α → Parse β} (hp : Coursed known p) {Q : α → Prop}
    (hq : ∀ input s, known s.tokens → Q ((p.run input).run s).1)
    (hk : ∀ a, Q a → Coursed (fun _ => True) (k a)) : Coursed known (p >>= k) := by
  intro input s hs
  obtain ⟨events, hevents⟩ := hp input s hs
  obtain ⟨more, hmore⟩ := hk _ (hq input s hs) input _ trivial
  exact ⟨_, hevents.seq hmore⟩

/-- A reader and what follows it, whatever is read. -/
theorem andThen {p : Parse α} {k : α → Parse β} (hp : Coursed known p)
    (hk : ∀ a, Coursed (fun _ => True) (k a)) : Coursed known (p >>= k) :=
  hp.seq (Q := fun _ => True) (fun _ _ _ => trivial) fun a _ => hk a

/-- A reader that only asks for something that does not depend on the constructs around. -/
theorem ask {p : Parse α} {k : α → Parse β} {a : Input → State → α}
    (hp : ∀ input s, (p.run input).run s = (a input s, s))
    (ha : ∀ input levels s, a input (s.deeper levels) = a input s)
    (hk : ∀ input s, known s.tokens → Coursed (fun ts => ts = s.tokens) (k (a input s))) :
    Coursed known (p >>= k) := by
  intro input s hs
  obtain ⟨events, hevents⟩ := hk input s hs input s rfl
  have hblind : Blind input p s := .of_ask (hp input) (ha input)
  refine ⟨[] ++ events, .seq (.blind hblind) ?_⟩
  rw [hp]
  exact hevents

theorem nested {p : Parse α} (hp : Coursed known p) : Coursed known (Parse.nested p) := by
  intro input s hs
  cases hn : s.tooDeep with
  | some offset =>
    have hrun (levels : Nat) : ((Parse.nested p).run input).run (s.deeper levels) =
        (none, s.deeper levels) := by
      rw [Keeps.run_nested, if_pos]
      rw [show (s.deeper levels).tooDeep = s.tooDeep from rfl, hn]
      rfl
    have hblind : Blind input (Parse.nested p) s := by
      refine ⟨?_, ?_, fun levels => ?_⟩
      · exact congrArg (·.2.depth) (hrun 0)
      · exact congrArg (·.2.tooDeep) (hrun 0)
      · rw [hrun, show ((Parse.nested p).run input).run s = (none, s) from hrun 0]
    exact ⟨[], .blind hblind⟩
  | none =>
    by_cases hd : maxNesting ≤ s.depth
    · exact ⟨_, .refused hn hd⟩
    · obtain ⟨events, hevents⟩ := hp input s.enter hs
      exact ⟨_, .entered hn (Nat.not_le.1 hd) hevents⟩

theorem composes : Composes Coursed where
  blind := blind
  know := know
  seq hp hq hk := hp.seq hq hk
  ask := ask
  nested h _ := nested h

end Coursed

/-- A reader of the grammar has a course from every state. -/
theorem Reads.coursed {α β : Type} {known : Known} {H : List Item} {p : Parse α} {q : Parse β}
    {G : α → β → List Item → Prop} (h : Reads .id known H p q G) : Coursed known q :=
  h.composes Coursed.composes

end JavaNames.Grammar
