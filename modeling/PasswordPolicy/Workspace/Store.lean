import PasswordPolicy.Generation.Password
import PasswordPolicy.Policy.Part

/-!
# Stores

A store holds quotas, tables and policies that can be shared. A table refers to
its quotas and a policy to its table, so drawing under a quota shows in every
table that it is in, and pushing into a table shows in every policy that uses
it. A cell is known by its place, and cells are only ever added.

`partAt` reads a cell and all that it refers to as a value. `addRule`, `addTable`
and `addPolicy` go the other way: they put a value into new cells that nothing
else refers to.
-/

namespace PasswordPolicy

/-- A reference to a cell of a store. -/
inductive Handle
  | quota (i : Nat)
  | table (i : Nat)
  | policy (i : Nat)
  deriving DecidableEq

structure Entry where
  alphabet : Alphabet
  quota : Nat
  deriving DecidableEq

structure PolicyCell where
  length : Nat
  table : Nat
  deriving DecidableEq

structure Store where
  quotas : List Quota
  tables : List (List Entry)
  policies : List PolicyCell
  deriving DecidableEq

/-- Why a step in a workspace fails. -/
inductive Refusal
  /-- The label is bound to nothing. -/
  | unbound (label : Text)
  /-- The label is bound to something of another kind. -/
  | unsuited (label : Text)
  /-- A reference leads to no cell. -/
  | dangling
  /-- Something cannot be read or built. -/
  | invalid (e : Error)
  /-- Something cannot be drawn. -/
  | faulty (f : Fault)
  deriving DecidableEq

namespace Store

def empty : Store := ⟨[], [], []⟩

/-- What stands in a list at a place that a reference leads to. -/
def cellAt {α : Type} (cells : List α) (i : Nat) : Except Refusal α :=
  match cells[i]? with
  | some c => .ok c
  | none => .error .dangling

def quotaAt (s : Store) (i : Nat) : Except Refusal Quota := cellAt s.quotas i

def entriesAt (s : Store) (i : Nat) : Except Refusal (List Entry) := cellAt s.tables i

/-- The rule that is left of the quota at a place. -/
def ruleAt (s : Store) (i : Nat) : Except Refusal Rule := do
  let q ← s.quotaAt i
  q.rule.mapError .invalid

/-- The rules that are left of the quotas that entries refer to. -/
def rulesOf (s : Store) (es : List Entry) : Except Refusal (List Rule) :=
  es.mapM fun e => s.ruleAt e.quota

def tableAt (s : Store) (i : Nat) : Except Refusal RuleTable := do
  let es ← s.entriesAt i
  let rs ← s.rulesOf es
  return .ofList rs

def policyAt (s : Store) (i : Nat) : Except Refusal Policy := do
  let cell ← cellAt s.policies i
  let t ← s.tableAt cell.table
  return ⟨cell.length, t⟩

def partAt (s : Store) : Handle → Except Refusal Part
  | .quota i => return .rule (← s.ruleAt i)
  | .table i => return .table (← s.tableAt i)
  | .policy i => return .policy (← s.policyAt i)

def addQuota (s : Store) (q : Quota) : Store × Nat :=
  ({ s with quotas := s.quotas ++ [q] }, s.quotas.length)

def addRule (s : Store) (r : Rule) : Store × Nat := s.addQuota (.ofRule r)

def addEntries (s : Store) (es : List Entry) : Store × Nat :=
  ({ s with tables := s.tables ++ [es] }, s.tables.length)

/-- The entries for rules whose quotas stand side by side from a place on. -/
def entriesFrom : Nat → List Rule → List Entry
  | _, [] => []
  | i, r :: rs => ⟨r.alphabet, i⟩ :: entriesFrom (i + 1) rs

/-- The store with a new table and new quotas for its rules. -/
def addTable (s : Store) (t : RuleTable) : Store × Nat :=
  { s with quotas := s.quotas ++ t.rules.map Quota.ofRule }.addEntries
    (entriesFrom s.quotas.length t.rules)

/-- The store with a new policy that uses the table at a place. -/
def addPolicyCell (s : Store) (length table : Nat) : Store × Nat :=
  ({ s with policies := s.policies ++ [⟨length, table⟩] }, s.policies.length)

/-- The store with a new policy, a new table for it and new quotas for its
rules. -/
def addPolicy (s : Store) (p : Policy) : Store × Nat :=
  let (s', table) := s.addTable p.table
  s'.addPolicyCell p.length table

def setQuota (s : Store) (i : Nat) (q : Quota) : Store :=
  { s with quotas := s.quotas.set i q }

def setEntries (s : Store) (i : Nat) (es : List Entry) : Store :=
  { s with tables := s.tables.set i es }

end Store

end PasswordPolicy
