import Busbar.Api.Store
import Busbar.Lib.Registry

/-!
# Ledger cells

The in-memory token ledger of one bucket's current window: the admission and billable counters, the
per-model tier tokens, and for each the last durably acknowledged value. Spend is never stored.
-/

namespace Busbar

/-- One model's counters: current, and last flushed. -/
structure ModelCell where
  cur : TierTokens
  flushed : TierTokens

def ModelCell.dead (m : ModelCell) : Bool := m.cur.total == 0 && m.flushed.total == 0

structure BudgetCell where
  windowStart : Nat
  requests : Nat
  billableRequests : Nat
  flushedRequests : Nat
  flushedBillableRequests : Nat
  models : Table String ModelCell
  dirty : Bool
  lastTouch : Nat

def TierTokens.satAdd (a b : TierTokens) : TierTokens where
  input := Busbar.satAdd a.input b.input
  output := Busbar.satAdd a.output b.output
  cacheRead := Busbar.satAdd a.cacheRead b.cacheRead
  cacheWrite := Busbar.satAdd a.cacheWrite b.cacheWrite

/-- The counters of a model name, interned at zero on first sight. -/
def modelOf (models : Table String ModelCell) (model : String) : ModelCell :=
  (models.lookup model).getD ⟨TierTokens.zero, TierTokens.zero⟩

namespace BudgetCell

def fresh (windowStart : Nat) : BudgetCell where
  windowStart := windowStart
  requests := 0
  billableRequests := 0
  flushedRequests := 0
  flushedBillableRequests := 0
  models := Registry.empty
  dirty := false
  lastTouch := 0

def accrue (c : BudgetCell) (model : String) (t : TierTokens) : BudgetCell :=
  let m := modelOf c.models model
  { c with models := c.models.set model { m with cur := m.cur.satAdd t } }

/-- The current tokens by model name. -/
def modelViews (c : BudgetCell) : List (String × TierTokens) := c.models.rows.map (fun e => (e.1, e.2.cur))

/-- Drop the models that carry neither current nor flushed tokens. -/
def pruneDeadModels (c : BudgetCell) : BudgetCell :=
  { c with models := c.models.retain (fun e => !e.2.dead) }

def totalTokens (c : BudgetCell) : Nat := c.models.rows.foldl (fun acc e => Busbar.satAdd acc e.2.cur.total) 0

/-- The cell a charge lands on: a cell of an older window is reset, one of the same or a newer window is
charged in place, a missing one is created. -/
def roll (cell : Option BudgetCell) (window : Nat) : BudgetCell :=
  match cell with
  | some c => if c.windowStart < window then fresh window else c
  | none => fresh window

end BudgetCell

end Busbar
