/-
How deeply the constructs of a file are nested. Blocks, declarations of types, lambdas, parentheses,
casts and leading operators are counted when they are entered; array initializers are not, so any
number of them may stand inside each other. Main statement: a file is refused with the limit, or on
every way down its tree stand no more constructs that are counted than the limit says.
-/
import JavaNames.Proofs.Reading.Nesting
import JavaNames.Proofs.Tree.Shape

namespace JavaNames

/-! ## Constructs that are counted -/

/-- Whether an operator stands in front of its operand. -/
def Payload.isLeading : Payload → Bool
  | .unary _ _ isLeading => isLeading
  | _ => false

/-- Whether a node is a construct that is counted: a block, the declaration of a type, a lambda, an
expression in parentheses, a cast, or an operator in front of its operand. -/
def Payload.isCounted (payload : Payload) : NodeKind → Bool
  | .block | .lambda | .parenthesized | .cast => true
  | .unary => payload.isLeading
  | kind => kind.isTypeDeclaration

/-- Whether a node of a tree is a construct that is counted. -/
def Tree.isCounted (tree : Tree) (id : NodeId) : Bool :=
  (tree.node? id).any fun node => node.payload.isCounted node.kind

/-- What is read without counting it may be one construct that is counted outside. -/
def Role.uncounted : Role → Nat
  | .operand => 1
  | _ => 0

theorem Role.Within.uncounted_le {r r' : Role} {l l' : Nat} (h : Role.Within r l r' l') :
    r.uncounted + 1 * l' ≤ r'.uncounted + 1 * l := by
  induction h with
  | trans _ _ ih ih' => omega
  | outwards _ ih => omega
  | _ => simp only [Role.uncounted]; omega

namespace Payload

variable {kind : NodeKind} {payload : Payload}

theorem uncounted_le_of_groups {groups : List Group} (h : payload.groups kind = some groups) :
    ∀ group ∈ groups, group.role.uncounted + (payload.isCounted kind).toNat ≤
      kind.role.uncounted + 1 * group.level := by
  unfold Payload.groups at h
  split at h
  all_goals first
    | (cases h
       simp [Role.uncounted, NodeKind.role, isCounted, isLeading, NodeKind.isTypeDeclaration,
         groups.typeGroups])
    | (split at h <;> cases h <;>
        simp [Role.uncounted, NodeKind.role, isCounted, NodeKind.isTypeDeclaration])
    | cases h

/-- What may play only parts of an operand has room where it is made. -/
theorem isCounted_le (kind : NodeKind) (payload : Payload) :
    (payload.isCounted kind).toNat ≤ kind.role.uncounted + 1 * (Grammar.rooms kind).length := by
  cases kind <;> first | exact Nat.zero_le _ | exact Bool.toNat_le _

/-- A node without children is not counted. -/
theorem isCounted_eq_false (h : payload.groups kind = some []) : payload.isCounted kind = false := by
  unfold Payload.groups at h
  split at h
  all_goals first
    | rfl
    | cases h

end Payload

/-- How many constructs are counted: each is entered once. -/
def Gauge.constructs : Gauge where
  scale := 1
  slack := Role.uncounted
  own kind payload := (payload.isCounted kind).toNat
  cost kind payload _ := (payload.isCounted kind).toNat
  slack_le := Role.Within.uncounted_le
  cost_le := Payload.uncounted_le_of_groups
  own_le := Payload.isCounted_le
  own_eq h := by rw [Payload.isCounted_eq_false h, Bool.toNat_false]

/-! ## Ways down -/

namespace Tree

variable {tree : Tree} {bound : NodeId → Nat} {root parent child id : NodeId} {above : List NodeId}

theorem toNat_isCounted {node : Node} (hn : tree.node? id = some node) :
    (tree.isCounted id).toNat = (node.payload.isCounted node.kind).toNat := by
  rw [isCounted, hn, Option.any_some]

theorem countP_isCounted_cons (tree : Tree) (id : NodeId) (above : List NodeId) :
    (id :: above).countP tree.isCounted =
      above.countP tree.isCounted + (tree.isCounted id).toNat := by
  rw [List.countP_cons, ← Bool.cond_eq_ite]
  rfl

namespace Bounds

theorem own_constructs (h : tree.Bounds .constructs bound) (id : NodeId) :
    (tree.isCounted id).toNat ≤ bound id := by
  cases hn : tree.node? id with
  | none => simp [isCounted, hn]
  | some node => exact toNat_isCounted hn ▸ h.own hn

theorem child_constructs (h : tree.Bounds .constructs bound) (hw : tree.WellFormed)
    (hc : child ∈ tree.children parent) :
    bound child + (tree.isCounted parent).toNat ≤ bound parent := by
  obtain ⟨node, hn⟩ : ∃ node, tree.node? parent = some node := by
    refine Option.isSome_iff_exists.1 (Option.ne_none_iff_isSome.1 fun hn => ?_)
    rw [children_eq_nil (node?_eq_none.1 hn)] at hc
    cases hc
  obtain ⟨groups, hg, -⟩ := hw.takes hn
  rw [children_eq hn] at hc
  obtain ⟨group, hgroup, hl⟩ := Group.mem_ids.1 ((Payload.children_perm_groups hg).mem_iff.1 hc)
  rw [toNat_isCounted hn]
  exact h.step hn hg group hgroup child hl

/-- The constructs above a node that are counted, and those on any way down from it, are no more than
the root may have. -/
theorem countP_above_le (h : tree.Bounds .constructs bound) (hw : tree.WellFormed)
    (hway : tree.Way root id above) : above.countP tree.isCounted + bound id ≤ bound root := by
  induction hway with
  | root => exact Nat.le_of_eq (by rw [List.countP_nil, Nat.zero_add])
  | @child parent child above _ hc ih =>
    have hstep := h.child_constructs hw hc
    rw [countP_isCounted_cons]
    omega

end Bounds

end Tree

/-! ## Whole files -/

namespace Grammar

theorem limit_of_parse {file text : String} {refusal : NestingError}
    (h : parse file text = .error refusal) : refusal.limit = maxNesting := by
  rw [parse, ofTokens_eq rfl] at h
  split at h
  · cases h
    rfl
  · cases h

/-- Files are refused with the limit on nested constructs, or they are read and on every way down their
trees, from the root to a node, stand no more constructs that are counted than the limit says. -/
theorem parse_nesting (file text : String) :
    (∃ offset, parse file text = .error ⟨offset, maxNesting⟩) ∨
      ∃ unit, parse file text = .ok unit ∧ ∀ {id : NodeId} {above : List NodeId},
        unit.tree.Way unit.root id above →
        (id :: above).countP unit.tree.isCounted ≤ maxNesting := by
  cases h : parse file text with
  | error refusal =>
    obtain ⟨offset, limit⟩ := refusal
    obtain rfl : limit = maxNesting := limit_of_parse h
    exact .inl ⟨offset, rfl⟩
  | ok unit =>
    refine .inr ⟨unit, rfl, fun {id above} hway => ?_⟩
    obtain ⟨bound, hb, hroot⟩ := exists_bounds .constructs h
    have habove := hb.countP_above_le (sound_of_parse h).wellFormed hway
    have hown := hb.own_constructs id
    have hle : bound unit.root ≤ maxNesting := by simpa [Gauge.constructs, Role.uncounted] using hroot
    rw [Tree.countP_isCounted_cons]
    omega

end Grammar

end JavaNames
