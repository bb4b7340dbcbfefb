/-
Offsets told by the tokens in front of them. The ticks of a list of tokens are the start of the text,
then the start and the stop of each token in turn, and the end of the text for ever after. Where tokens
stand one behind the other, the order of offsets is the order of their ticks as far as it matters: a
token starts before everything that comes after its start.
-/
import JavaNames.Proofs.Token.Order

namespace JavaNames.Token

/-- The offset at a tick, the start of the first token being the first. -/
def tickFrom (stop : Nat) : List Token → Nat → Nat
  | [], _ => stop
  | token :: _, 0 => token.start
  | token :: _, 1 => token.stop
  | _ :: rest, n + 2 => tickFrom stop rest n

/-- The offset at a tick, the start of the text being the first. -/
def tick (stop : Nat) (tokens : List Token) : Nat → Nat
  | 0 => 0
  | n + 1 => tickFrom stop tokens n

section

variable {stop start : Nat} {tokens : List Token}

theorem tickFrom_drop (stop : Nat) (tokens : List Token) (k n : Nat) :
    tickFrom stop (tokens.drop k) n = tickFrom stop tokens (2 * k + n) := by
  induction k generalizing tokens with
  | zero => rw [List.drop_zero, Nat.mul_zero, Nat.zero_add]
  | succ k ih =>
    cases tokens with
    | nil => rw [List.drop_nil, tickFrom, tickFrom]
    | cons token rest =>
      rw [List.drop_succ_cons, ih rest, show 2 * (k + 1) + n = 2 * k + n + 2 by omega, tickFrom]

theorem tickFrom_zero (stop : Nat) (tokens : List Token) :
    tickFrom stop tokens 0 = (tokens.headD (.endOfFile stop)).start := by
  cases tokens <;> rfl

/-- The start of the token behind a number of others. -/
theorem tick_start (stop : Nat) (tokens : List Token) (k : Nat) :
    tick stop tokens (2 * k + 1) = ((tokens.drop k).headD (.endOfFile stop)).start := by
  rw [tick, ← tickFrom_zero, tickFrom_drop, Nat.add_zero]

/-- The stop of the token behind a number of others. -/
theorem tick_stop (stop : Nat) {tokens rest : List Token} {token : Token} {k : Nat}
    (h : tokens.drop k = token :: rest) : tick stop tokens (2 * (k + 1)) = token.stop := by
  rw [show 2 * (k + 1) = 2 * k + 1 + 1 by omega, tick, ← tickFrom_drop, h, tickFrom]

theorem Ordered.le_tickFrom (h : Ordered stop start tokens) (n : Nat) :
    start ≤ tickFrom stop tokens n := by
  induction h generalizing n with
  | nil hle => exact hle
  | cons hs ht _ ih =>
    rcases n with _ | _ | n
    · exact hs
    · exact Nat.le_trans hs (Nat.le_of_lt ht)
    · exact Nat.le_trans (Nat.le_trans hs (Nat.le_of_lt ht)) (ih n)

theorem Ordered.tickFrom_mono (h : Ordered stop start tokens) {m n : Nat} (hle : m ≤ n) :
    tickFrom stop tokens m ≤ tickFrom stop tokens n := by
  induction h generalizing m n with
  | nil => exact Nat.le_refl _
  | @cons start token rest hs ht hrest ih =>
    rcases m with _ | _ | m <;> rcases n with _ | _ | n <;> try omega
    · exact Nat.le_of_lt ht
    · exact Nat.le_trans (Nat.le_of_lt ht) (hrest.le_tickFrom n)
    · exact hrest.le_tickFrom n
    · exact ih (by omega)

theorem Ordered.tickFrom_lt (h : Ordered stop start tokens) {k n : Nat} (hk : k < tokens.length)
    (hlt : 2 * k < n) : tickFrom stop tokens (2 * k) < tickFrom stop tokens n := by
  induction h generalizing k n with
  | nil => exact absurd hk (Nat.not_lt_zero k)
  | @cons start token rest hs ht hrest ih =>
    cases k with
    | zero =>
      rcases n with _ | _ | n
      · exact absurd hlt (Nat.lt_irrefl 0)
      · exact ht
      · exact Nat.lt_of_lt_of_le ht (hrest.le_tickFrom n)
    | succ k =>
      rcases n with _ | _ | n <;> try omega
      exact ih (Nat.lt_of_succ_lt_succ hk) (by omega)

variable (h : Ordered stop 0 tokens)

include h

theorem Ordered.tick_mono {m n : Nat} (hle : m ≤ n) : tick stop tokens m ≤ tick stop tokens n := by
  cases m with
  | zero => exact Nat.zero_le _
  | succ m =>
    cases n with
    | zero => exact absurd hle (Nat.not_succ_le_zero m)
    | succ n => exact h.tickFrom_mono (Nat.le_of_succ_le_succ hle)

/-- A token starts at or behind a tick exactly when the tick does not come after its start. -/
theorem Ordered.tick_le_start_iff {k n : Nat} (hk : k < tokens.length) :
    tick stop tokens n ≤ tick stop tokens (2 * k + 1) ↔ n ≤ 2 * k + 1 := by
  constructor
  · intro hle
    rcases n with _ | n
    · exact Nat.zero_le _
    · refine Nat.not_lt.1 fun hlt => Nat.not_le.2 (h.tickFrom_lt hk ?_) hle
      omega
  · exact h.tick_mono

end

end JavaNames.Token
