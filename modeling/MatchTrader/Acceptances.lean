import MatchTrader.SignalCopy
import MatchTrader.StoreRules
import MatchTrader.WatcherCancels

/-! What counts as an accepted opening write on the four paths that issue one: the manual send, the
router, the signal dispatcher and the stop-limit watcher. -/

namespace MatchTrader

open Durable

/-- The reply has no status but OK, and names an order or a position. -/
def Operation.Accepts (r : Operation) : Prop :=
  (r.status = none ∨ r.status = some "" ∨ r.status = some "OK") ∧ (r.orderId.getD "" ≠ "" ∨ r.positionId.getD "" ≠ "")

instance (r : Operation) : Decidable r.Accepts := by unfold Operation.Accepts; infer_instance

/-- The broker answers a write with the reply, and the statements of the store work. -/
def Answered (reply : Operation) : (q : Query) → Reply q → Prop
  | .commitFails, b => b = false
  | .write _ _, r => r = .ok reply
  | _, _ => True

/-- The attempt of a trade's action is on record with an outcome. -/
def Landed (identity : String) (key : ActionKey) (outcome : Outcome) (w : World) : Prop :=
  ∀ a ∈ w.journal.attempts, a.key = (identity, key) → a.state = outcome

/-- A path ends with the verdict that the reply deserves, and with that outcome on record. -/
def Records {α : Type} (reply : Operation) (p : Act α) (verdict : α → Decision) (landed : Outcome → World → Prop)
    (w : World) : Prop :=
  ∀ env, (∀ i q, Answered reply q (env i q)) →
    ∃ a, (p.eval env w).2 = .ok a ∧ verdict a = (if reply.Accepts then .accepted else .uncertain)
      ∧ landed (if reply.Accepts then .accepted else .uncertain) (p.eval env w).1

section Operations

variable {r : Operation}

end Operations

section Works

variable {w : World} {reply : Operation} {α : Type}

/-- Every change of the world is allowed. -/
def Loose (_ _ : World) : Prop := True

end Works

section Landings

variable {w : World} {reply : Operation} {identity : String} {key : ActionKey} {t : TradeRow} {P : Unit → World → Prop}
  {E : Exc → World → Prop}

end Landings

section Paths

variable [Host] {w : World} {reply : Operation}

end Paths

section Watching

open StopLimitWatcher

variable [WatchHost] {reply : Operation}

end Watching

section Sample

attribute [local instance] sampleHost sampleWatchHost

end Sample

end MatchTrader
