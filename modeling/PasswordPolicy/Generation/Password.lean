import PasswordPolicy.Generation.Quota
import PasswordPolicy.Policy.Feasibility

/-!
# Generating a password

A password is made in three steps. The characters that are due under the rules
are drawn, rule by rule. Then each further place is filled from a quota picked
from a pool: the quotas under which characters may still be drawn. A quota
leaves the pool when it is exhausted. At last the characters are shuffled.

A policy that cannot be met is refused before anything is drawn.
-/

namespace PasswordPolicy

/-- What comes of drawing the characters that are due: the characters, the pool
to fill further places from, and the source. -/
structure Deal where
  letters : List Char
  pool : List Quota
  source : Source

/-- The characters that are due under the quotas, one quota after the other. -/
def deal : List Quota → Source → Except Fault Deal
  | [], s => .ok ⟨[], [], s⟩
  | q :: qs, s => do
    let d := q.drawDue s
    let cs ← d.result
    let rest ← deal qs d.source
    return ⟨cs ++ rest.letters,
      if d.quota.canFill then d.quota :: rest.pool else rest.pool, rest.source⟩

/-- Characters for a number of places, each from a quota picked from the pool. -/
def fill : Nat → List Quota → Source → Except Fault (List Char × Source)
  | 0, _, s => .ok ([], s)
  | n + 1, pool, s =>
    if h : 0 < pool.length then do
      let (i, s') := s.below h
      let d := pool[i].draw s'
      let c ← d.result
      let pool' := if d.quota.isActive then pool.set i d.quota else pool.eraseIdx i
      let (cs, s'') ← fill n pool' d.source
      return (c.toList ++ cs, s'')
    else .error .nothingToFill

/-- The characters of a password before they are shuffled: those that were due, those
for the further places, and the source. -/
structure Gathering where
  due : List Char
  further : List Char
  source : Source

/-- The characters in a random order. -/
def Gathering.shuffled (g : Gathering) : Text × Source :=
  g.source.shuffle (g.due ++ g.further)

inductive Attempt
  | refused (obstacle : Policy.Obstacle)
  /-- A password was made; some of its characters were due. -/
  | made (due : Nat) (password : Text)

namespace Attempt

def password? : Attempt → Option Text
  | refused _ => none
  | made _ w => some w

end Attempt

namespace Policy

/-- The quotas of the rules under which nothing has been drawn. -/
def quotas (p : Policy) : List Quota := p.rules.map Quota.ofRule

/-- The characters of a password before they are shuffled. Whether the policy can
be met makes no difference here. -/
def gather (p : Policy) (s : Source) : Except Fault Gathering := do
  let d ← deal p.quotas s
  let (cs, s') ← fill (p.length - d.letters.length) d.pool d.source
  return ⟨d.letters, cs, s'⟩

def attempt (p : Policy) (s : Source) : Except Fault (Attempt × Source) :=
  match p.obstacle? with
  | some o => .ok (.refused o, s)
  | none => (p.gather s).map fun g =>
    let (w, s') := g.shuffled
    (.made g.due.length w, s')

/-- A password that meets the policy, if the policy can be met. -/
def generate (p : Policy) (s : Source) : Except Fault (Option Text × Source) :=
  (p.attempt s).map fun r => (r.1.password?, r.2)

/-- A number of passwords from one source, one after the other. -/
def generateMany (p : Policy) : Nat → Source → Except Fault (List (Option Text) × Source)
  | 0, s => .ok ([], s)
  | n + 1, s => do
    let (w, s') ← p.generate s
    let (ws, s'') ← p.generateMany n s'
    return (w :: ws, s'')

/-- A policy that cannot be met is refused without a call of the source. -/
theorem attempt_of_obstacle {p : Policy} {o : Obstacle} (h : p.obstacle? = some o)
    (s : Source) : p.attempt s = .ok (.refused o, s) := by
  rw [attempt, h]

/-- For a policy that can be met, the characters gathered are shuffled. -/
theorem attempt_of_isFeasible {p : Policy} (h : p.isFeasible = true) (s : Source) :
    p.attempt s =
      (p.gather s).map fun g => (.made g.due.length g.shuffled.1, g.shuffled.2) := by
  have ho : p.obstacle? = none := by simpa [isFeasible] using h
  rw [attempt, ho]

theorem generate_of_not_isFeasible {p : Policy} (h : p.isFeasible = false) (s : Source) :
    p.generate s = .ok (none, s) := by
  obtain ⟨o, ho⟩ : ∃ o, p.obstacle? = some o := by
    simpa [isFeasible, Option.isSome_iff_exists] using h
  rw [generate, attempt_of_obstacle ho]
  rfl

end Policy

end PasswordPolicy
