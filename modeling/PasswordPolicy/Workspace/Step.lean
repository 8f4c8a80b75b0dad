import PasswordPolicy.Workspace.Store

/-!
# Workspaces

A workspace is a store with labels for its cells and a random source. A step
makes, combines, queries or draws from what labels are bound to.

Only three kinds of step change a cell: drawing one character, drawing all that
are due, and pushing into a table. Everything else that is made from something
is made in new cells. An action that fails leaves the workspace as it was. The
two steps that draw use up their quota before they can fail, and it stays so.
-/

namespace PasswordPolicy

structure Workspace where
  store : Store
  labels : List (Text × Handle)
  source : Source

/-- A step that draws under no quota of the workspace. -/
inductive Action
  /-- Bind a label to a new quota for a rule. -/
  | makeRule (label : Text) (draft : Rule.Draft)
  /-- Bind a label to a new table that holds the named quotas themselves. -/
  | makeTable (label : Text) (items : List Text)
  /-- Bind a label to a new policy. -/
  | makePolicy (label : Text) (draft : Policy.Draft)
  /-- Bind a label to a new policy that uses the named table itself. -/
  | share (label : Text) (length : Int) (table : Text)
  /-- Bind a label to a copy in new cells. -/
  | copy (label source : Text)
  /-- Bind a label to a policy with a copy of the named quota pushed. -/
  | adopt (label policy rule : Text)
  /-- Bind a label to an edited policy. -/
  | edit (label policy : Text) (change : Edit)
  /-- Push the named quota itself into a table. -/
  | push (table rule : Text)
  /-- Look up an alphabet in a table, and bind a label to the quota found. -/
  | find (table : Text) (alphabet : Alphabet.Draft) (label : Option Text)
  /-- Bind labels to the quotas of a policy themselves. -/
  | members (policy : Text) (labels : List Text)
  /-- Ask whether a table has an alphabet. -/
  | contains (table : Text) (alphabet : Alphabet.Draft)
  /-- Ask how many entries a table has. -/
  | size (table : Text)
  /-- Ask whether two things agree. -/
  | compare (a b : Text)
  /-- Ask whether a quota is active and whether it is due. -/
  | status (rule : Text)
  /-- Ask for the totals of a policy and whether it can be met. -/
  | feasible (policy : Text)
  /-- Generate a password. -/
  | generate (policy : Text)

inductive Step
  | act (action : Action)
  | draw (rule : Text)
  | drawDue (rule : Text)

inductive Answer
  | done
  | text (t : Option Text)
  | texts (ts : List Text)
  | verdict (b : Bool)
  | count (n : Nat)
  | letter (c : Option Char)
  | letters (cs : List Char)
  /-- Whether a quota is active and whether it is due. -/
  | status (active due : Bool)
  /-- The totals of a policy and whether it can be met. -/
  | prospect (least : Nat) (most : Option Nat) (feasible : Bool)

namespace Workspace

def empty (source : Source) : Workspace := ⟨.empty, [], source⟩

/-- What a label is bound to. -/
def handle (w : Workspace) (label : Text) : Except Refusal Handle :=
  match w.labels.lookup label with
  | some h => .ok h
  | none => .error (.unbound label)

/-- The place of the quota that a label is bound to. -/
def quotaPlace (w : Workspace) (label : Text) : Except Refusal Nat := do
  match ← w.handle label with
  | .quota i => return i
  | _ => .error (.unsuited label)

def tablePlace (w : Workspace) (label : Text) : Except Refusal Nat := do
  match ← w.handle label with
  | .table i => return i
  | _ => .error (.unsuited label)

def policyPlace (w : Workspace) (label : Text) : Except Refusal Nat := do
  match ← w.handle label with
  | .policy i => return i
  | _ => .error (.unsuited label)

/-- The policy that a label is bound to, as a value. -/
def policy (w : Workspace) (label : Text) : Except Refusal Policy := do
  w.store.policyAt (← w.policyPlace label)

def part (w : Workspace) (label : Text) : Except Refusal Part := do
  w.store.partAt (← w.handle label)

def bind (w : Workspace) (label : Text) (h : Handle) : Workspace :=
  { w with labels := (label, h) :: w.labels.filter (·.1 != label) }

/-- The workspace with several labels bound, each to the quota of an entry. -/
def bindEntries (w : Workspace) (labels : List Text) (es : List Entry) : Workspace :=
  (labels.zip es).foldl (fun w b => w.bind b.1 (.quota b.2.quota)) w

def bindRule (w : Workspace) (label : Text) (r : Rule) : Workspace :=
  let (s, i) := w.store.addRule r
  { w with store := s }.bind label (.quota i)

def bindTable (w : Workspace) (label : Text) (t : RuleTable) : Workspace :=
  let (s, i) := w.store.addTable t
  { w with store := s }.bind label (.table i)

def bindPolicy (w : Workspace) (label : Text) (p : Policy) : Workspace :=
  let (s, i) := w.store.addPolicy p
  { w with store := s }.bind label (.policy i)

/-- The entry for the quota that a label is bound to. -/
def entry (w : Workspace) (label : Text) : Except Refusal Entry := do
  let i ← w.quotaPlace label
  let q ← w.store.quotaAt i
  return ⟨q.alphabet, i⟩

/-- The answer of an action, and the workspace after it. -/
def perform (w : Workspace) : Action → Except Refusal (Answer × Workspace)
  | .makeRule label draft => do
    let r ← draft.build.mapError .invalid
    return (.done, w.bindRule label r)
  | .makeTable label items => do
    let es ← items.mapM w.entry
    let (s, i) := w.store.addEntries (es.foldl (fun es e => KeyedList.place Entry.alphabet e es) [])
    return (.done, { w with store := s }.bind label (.table i))
  | .makePolicy label draft => do
    let p ← draft.build.mapError .invalid
    return (.done, w.bindPolicy label p)
  | .share label length table => do
    let t ← w.tablePlace table
    let n ← (Policy.checkLength length).mapError .invalid
    let (s, i) := w.store.addPolicyCell n t
    return (.done, { w with store := s }.bind label (.policy i))
  | .copy label source => do
    match ← w.part source with
    | .rule r => return (.done, w.bindRule label r)
    | .table t => return (.done, w.bindTable label t)
    | .policy p => return (.done, w.bindPolicy label p)
    | _ => .error (.unsuited source)
  | .adopt label policy rule => do
    let p ← w.policy policy
    let r ← w.store.ruleAt (← w.quotaPlace rule)
    return (.done, w.bindPolicy label (p.push r))
  | .edit label policy change => do
    let p ← w.policy policy
    let q ← (p.edit change).mapError .invalid
    return (.done, w.bindPolicy label q)
  | .push table rule => do
    let i ← w.tablePlace table
    let e ← w.entry rule
    let es ← w.store.entriesAt i
    return (.done, { w with store := w.store.setEntries i (KeyedList.place Entry.alphabet e es) })
  | .find table alphabet label => do
    let a ← alphabet.build.mapError .invalid
    let es ← w.store.entriesAt (← w.tablePlace table)
    match KeyedList.find? Entry.alphabet a es with
    | none => return (.text none, w)
    | some e =>
      let r ← w.store.ruleAt e.quota
      return (.text (some r.text), w.bindEntries label.toList [e])
  | .members policy labels => do
    let cell ← Store.cellAt w.store.policies (← w.policyPlace policy)
    let es ← w.store.entriesAt cell.table
    let rs ← w.store.rulesOf es
    return (.texts (rs.map Rule.text), w.bindEntries labels es)
  | .contains table alphabet => do
    let a ← alphabet.build.mapError .invalid
    let es ← w.store.entriesAt (← w.tablePlace table)
    return (.verdict (KeyedList.find? Entry.alphabet a es).isSome, w)
  | .size table => do
    let es ← w.store.entriesAt (← w.tablePlace table)
    return (.count es.length, w)
  | .compare a b => do
    let x ← w.part a
    let y ← w.part b
    return (.verdict (x.agrees y), w)
  | .status rule => do
    let q ← w.store.quotaAt (← w.quotaPlace rule)
    return (.status q.isActive q.isDue, w)
  | .feasible policy => do
    let p ← w.policy policy
    return (.prospect p.least p.most p.isFeasible, w)
  | .generate policy => do
    let p ← w.policy policy
    let (t, s) ← (p.generate w.source).mapError .faulty
    return (.text t, { w with source := s })

/-- The answer of a step that draws under the quota that a label is bound to, and
the workspace after it. Whatever comes of the drawing, the quota and the source
stay as the drawing left them. -/
def drawUnder {α : Type} (w : Workspace) (label : Text) (draw : Quota → Source → Drawing α)
    (answer : α → Answer) : Except Refusal Answer × Workspace :=
  let place : Except Refusal (Nat × Quota) := do
    let i ← w.quotaPlace label
    let q ← w.store.quotaAt i
    return (i, q)
  match place with
  | .error e => (.error e, w)
  | .ok (i, q) =>
    let d := draw q w.source
    ((d.result.map answer).mapError .faulty,
      { w with store := w.store.setQuota i d.quota, source := d.source })

def step (w : Workspace) : Step → Except Refusal Answer × Workspace
  | .act action =>
    match w.perform action with
    | .ok (a, w') => (.ok a, w')
    | .error e => (.error e, w)
  | .draw label => w.drawUnder label Quota.draw .letter
  | .drawDue label => w.drawUnder label Quota.drawDue .letters

def run (w : Workspace) (steps : List Step) : Workspace :=
  steps.foldl (fun w s => (w.step s).2) w

/-- The text of what each label is bound to. -/
def display (w : Workspace) : Except Refusal (List (Text × Text)) :=
  w.labels.mapM fun b => do
    let p ← w.store.partAt b.2
    return (b.1, p.text)

end Workspace

end PasswordPolicy
