import PasswordPolicy.Proofs.Generation.Price
import PasswordPolicy.Proofs.Workspace.SoundStore

/-!
# What a step of a workspace can do

A workspace is sound when its store is and its labels are bound to cells of the store. In a
sound workspace an action either succeeds, and then the workspace becomes one of six
(`Becomes`), or it is refused for a fault in what was asked for, which is a label, a text or
a number (`perform_ends`). With the two steps that draw, this is all that a step can do
(`goes_step`), and all that is said of every step is said by cases on it.
-/

namespace PasswordPolicy

/-- The fault is in what was asked for. -/
def Refusal.IsOfRequest : Refusal → Prop
  | .unbound _ | .unsuited _ | .invalid _ => True
  | .dangling | .faulty _ => False

/-- The label for which an action makes cells that are shared with nothing. -/
def Action.makes? : Action → Option Text
  | .makeRule label _ | .makePolicy label _ | .copy label _ | .adopt label _ _
  | .edit label _ _ => some label
  | _ => none

/-- The action asks for something, and neither makes nor changes a cell. -/
def Action.asks : Action → Bool
  | .find .. | .members .. | .contains .. | .size .. | .compare .. | .status .. | .feasible ..
  | .generate .. => true
  | _ => false

theorem Action.makes?_of_asks {a : Action} (h : a.asks = true) : a.makes? = none := by
  cases a <;> first | rfl | cases h

namespace Workspace

variable {w w' : Workspace} {label : Text}

/-- The store is sound, and labels are bound to what it has. -/
structure IsSound (w : Workspace) : Prop where
  store : w.store.IsSound
  bound : ∀ b ∈ w.labels, w.store.Has b.2

/-- The workspace with something new in new cells bound to a label. -/
inductive Made (w : Workspace) (label : Text) : Workspace → Prop
  | rule (r : Rule) : w.Made label (w.bindRule label r)
  | table (t : RuleTable) : w.Made label (w.bindTable label t)
  | policy (p : Policy) : w.Made label (w.bindPolicy label p)

/-- What an action that succeeds makes of a workspace. -/
inductive Becomes (w : Workspace) : Action → Workspace → Prop
  /-- Something is made in new cells. -/
  | made {a : Action} {label : Text} {w' : Workspace} (ha : a.makes? = some label)
      (h : w.Made label w') : w.Becomes a w'
  /-- Quotas are put into a new table. -/
  | gathered {label : Text} {items : List Text} {es : List Entry}
      (hes : ∀ e ∈ es, w.store.Backs e) :
      w.Becomes (.makeTable label items)
        ({ w with store := (w.store.addEntries
            (es.foldl (fun es e => KeyedList.place Entry.alphabet e es) [])).1 }.bind label
          (.table w.store.tables.length))
  /-- A table is used by a new policy. -/
  | shared {label table : Text} {length : Int} {n i : Nat} (hi : i < w.store.tables.length) :
      w.Becomes (.share label length table)
        ({ w with store := (w.store.addPolicyCell n i).1 }.bind label
          (.policy w.store.policies.length))
  /-- A quota is pushed into a table. -/
  | pushed {table rule : Text} {i : Nat} {e : Entry} {es : List Entry}
      (hi : w.tablePlace table = .ok i) (he : w.quotaPlace rule = .ok e.quota)
      (hback : w.store.Backs e) (hes : w.store.tables[i]? = some es) :
      w.Becomes (.push table rule)
        { w with store := w.store.setEntries i (KeyedList.place Entry.alphabet e es) }
  /-- Quotas of a table get labels. -/
  | labelled {a : Action} {labels : List Text} {es : List Entry} (ha : a.asks = true)
      (hes : ∀ e ∈ es, w.store.Backs e) : w.Becomes a (w.bindEntries labels es)
  /-- Something is asked, at most at the price of some calls of the source. -/
  | asked {a : Action} {source : Source} (ha : a.asks = true) :
      w.Becomes a { w with source := source }

/-- Binding labels to quotas leaves the store as it is. -/
theorem store_bindEntries (w : Workspace) (labels : List Text) (es : List Entry) :
    (w.bindEntries labels es).store = w.store := by
  unfold bindEntries
  induction labels.zip es generalizing w with
  | nil => rfl
  | cons b bs ih => exact ih (w.bind b.1 (.quota b.2.quota))

theorem mem_of_lookup {α β : Type} [BEq α] [LawfulBEq α] {a : α} {b : β} {xs : List (α × β)}
    (h : xs.lookup a = some b) : (a, b) ∈ xs := by
  obtain ⟨l, l', rfl, -⟩ := List.lookup_eq_some_iff.1 h
  exact List.mem_append_right l (List.mem_cons_self ..)

theorem quotaPlace_of_handle {i : Nat} (h : w.handle label = .ok (.quota i)) :
    w.quotaPlace label = .ok i := by
  rw [quotaPlace, h]
  rfl

theorem tablePlace_of_handle {i : Nat} (h : w.handle label = .ok (.table i)) :
    w.tablePlace label = .ok i := by
  rw [tablePlace, h]
  rfl

theorem policyPlace_of_handle {i : Nat} (h : w.handle label = .ok (.policy i)) :
    w.policyPlace label = .ok i := by
  rw [policyPlace, h]
  rfl

theorem ends_cellAt {α : Type} {cells : List α} {i : Nat} (hi : i < cells.length)
    {E : Refusal → Prop} : Ends (fun c => cells[i]? = some c) E (Store.cellAt cells i) := by
  have hc := List.getElem?_eq_getElem hi
  exact ends_of_eq_ok (Store.cellAt_of_some hc) hc

section Asking

variable (hw : w.IsSound)

include hw

theorem ends_handle (label : Text) :
    Ends (fun k => w.handle label = .ok k ∧ w.store.Has k) Refusal.IsOfRequest
      (w.handle label) := by
  unfold handle
  cases h : w.labels.lookup label with
  | none => trivial
  | some k => exact ⟨rfl, hw.bound _ (mem_of_lookup h)⟩

theorem ends_quotaPlace (label : Text) :
    Ends (fun i => w.quotaPlace label = .ok i ∧ i < w.store.quotas.length)
      Refusal.IsOfRequest (w.quotaPlace label) := by
  refine (ends_handle hw label).bind fun k ⟨hk, hhas⟩ => ?_
  cases k with
  | quota i => exact ⟨quotaPlace_of_handle hk, hhas⟩
  | table i | policy i => trivial

theorem ends_tablePlace (label : Text) :
    Ends (fun i => w.tablePlace label = .ok i ∧ i < w.store.tables.length)
      Refusal.IsOfRequest (w.tablePlace label) := by
  refine (ends_handle hw label).bind fun k ⟨hk, hhas⟩ => ?_
  cases k with
  | table i => exact ⟨tablePlace_of_handle hk, hhas⟩
  | quota i | policy i => trivial

theorem ends_policyPlace (label : Text) :
    Ends (fun i => w.policyPlace label = .ok i ∧ i < w.store.policies.length)
      Refusal.IsOfRequest (w.policyPlace label) := by
  refine (ends_handle hw label).bind fun k ⟨hk, hhas⟩ => ?_
  cases k with
  | policy i => exact ⟨policyPlace_of_handle hk, hhas⟩
  | quota i | table i => trivial

theorem ends_policy (label : Text) :
    Ends (fun _ => True) Refusal.IsOfRequest (w.policy label) := by
  refine (ends_policyPlace hw label).bind fun i ⟨_, hi⟩ => ?_
  obtain ⟨p, hp, -⟩ := hw.store.exists_policyAt (List.getElem?_eq_getElem hi)
  exact ends_of_eq_ok hp trivial

theorem ends_part (label : Text) :
    Ends (fun _ => True) Refusal.IsOfRequest (w.part label) := by
  refine (ends_handle hw label).bind fun k ⟨_, hk⟩ => ?_
  obtain ⟨x, hx, -⟩ := hw.store.exists_partAt hk
  exact ends_of_eq_ok hx trivial

theorem ends_entry (label : Text) :
    Ends (fun e => w.quotaPlace label = .ok e.quota ∧ w.store.Backs e) Refusal.IsOfRequest
      (w.entry label) := by
  refine (ends_quotaPlace hw label).bind fun i ⟨hplace, hi⟩ => ?_
  refine (ends_cellAt hi).bind fun q hq => ?_
  exact ⟨hplace, q, hq, rfl⟩

theorem ends_ruleAt {i : Nat} (hi : i < w.store.quotas.length) :
    Ends (fun _ => True) Refusal.IsOfRequest (w.store.ruleAt i) := by
  obtain ⟨r, -, hr⟩ := hw.store.exists_ruleAt (List.getElem?_eq_getElem hi)
  exact ends_of_eq_ok hr trivial

theorem ends_entriesAt {i : Nat} (hi : i < w.store.tables.length) :
    Ends (fun es => w.store.tables[i]? = some es ∧ ∀ e ∈ es, w.store.Backs e)
      Refusal.IsOfRequest (w.store.entriesAt i) :=
  (ends_cellAt hi).mono fun es hes => ⟨hes, hw.store.backed es (List.mem_of_getElem? hes)⟩

/-- In a sound workspace an action succeeds, or it is refused for a fault in what was asked
for. -/
theorem perform_ends (a : Action) :
    Ends (fun r => w.Becomes a r.2) Refusal.IsOfRequest (w.perform a) := by
  -- Each action is followed through its steps. Those that look up a label, read a text or
  -- check a number may fail, and those that only read the store do not, since it is sound.
  cases a with
  | makeRule label draft =>
      refine (ends_mapError _ fun _ => trivial).bind fun r _ => ?_
      exact .made rfl (.rule r)
  | makeTable label items =>
      refine (ends_mapM fun x _ => (ends_entry hw x).mono fun _ h => h.2).bind fun es hes => ?_
      exact .gathered hes
  | makePolicy label draft =>
      refine (ends_mapError _ fun _ => trivial).bind fun p _ => ?_
      exact .made rfl (.policy p)
  | share label length table =>
      refine (ends_tablePlace hw table).bind fun i ⟨_, hi⟩ => ?_
      refine (ends_mapError _ fun _ => trivial).bind fun n _ => ?_
      exact .shared hi
  | copy label source =>
      refine (ends_part hw source).bind fun x _ => ?_
      cases x with
      | rule r => exact Becomes.made rfl (.rule r)
      | table t => exact Becomes.made rfl (.table t)
      | policy p => exact Becomes.made rfl (.policy p)
      | range r | alphabet a => trivial
  | adopt label policy rule =>
      refine (ends_policy hw policy).bind fun p _ => ?_
      refine (ends_quotaPlace hw rule).bind fun i ⟨_, hi⟩ => ?_
      refine (ends_ruleAt hw hi).bind fun r _ => ?_
      exact .made rfl (.policy _)
  | edit label policy change =>
      refine (ends_policy hw policy).bind fun p _ => ?_
      refine (ends_mapError _ fun _ => trivial).bind fun q _ => ?_
      exact .made rfl (.policy q)
  | push table rule =>
      refine (ends_tablePlace hw table).bind fun i ⟨hplace, hi⟩ => ?_
      refine (ends_entry hw rule).bind fun e ⟨hrule, hback⟩ => ?_
      refine (ends_entriesAt hw hi).bind fun es ⟨hes, _⟩ => ?_
      exact .pushed hplace hrule hback hes
  | find table alphabet label =>
      refine (ends_mapError _ fun _ => trivial).bind fun a _ => ?_
      refine (ends_tablePlace hw table).bind fun i ⟨_, hi⟩ => ?_
      refine (ends_entriesAt hw hi).bind fun es ⟨_, hes⟩ => ?_
      cases hfind : KeyedList.find? Entry.alphabet a es with
      | none => exact Becomes.asked rfl
      | some e =>
          have hback : w.store.Backs e := hes e (List.mem_of_find?_eq_some hfind)
          refine (ends_ruleAt hw hback.has).bind fun r _ => ?_
          refine Becomes.labelled rfl ?_
          intro d hd
          rwa [List.mem_singleton.1 hd]
  | members policy labels =>
      refine (ends_policyPlace hw policy).bind fun i ⟨_, hi⟩ => ?_
      refine (ends_cellAt hi).bind fun c hc => ?_
      have hseat := hw.store.seated c (List.mem_of_getElem? hc)
      refine (ends_entriesAt hw hseat).bind fun es ⟨_, hes⟩ => ?_
      obtain ⟨rs, -, hrs⟩ := hw.store.exists_rulesOf hes
      rw [hrs]
      exact Becomes.labelled rfl hes
  | contains table alphabet =>
      refine (ends_mapError _ fun _ => trivial).bind fun a _ => ?_
      refine (ends_tablePlace hw table).bind fun i ⟨_, hi⟩ => ?_
      exact (ends_entriesAt hw hi).bind fun es _ => .asked rfl
  | size table =>
      refine (ends_tablePlace hw table).bind fun i ⟨_, hi⟩ => ?_
      exact (ends_entriesAt hw hi).bind fun es _ => .asked rfl
  | compare a b =>
      refine (ends_part hw a).bind fun x _ => ?_
      exact (ends_part hw b).bind fun y _ => .asked rfl
  | status rule =>
      refine (ends_quotaPlace hw rule).bind fun i ⟨_, hi⟩ => ?_
      exact (ends_cellAt hi).bind fun q _ => .asked rfl
  | feasible policy =>
      exact (ends_policy hw policy).bind fun p _ => .asked rfl
  | generate policy =>
      refine (ends_policy hw policy).bind fun p _ => ?_
      obtain ⟨t, ht⟩ := p.exists_generate w.source
      rw [ht]
      exact Becomes.asked rfl

end Asking

/-- The workspace after a drawing under the quota at a place. -/
def drawn {α : Type} (w : Workspace) (i : Nat) (d : Drawing α) : Workspace :=
  { w with store := w.store.setQuota i d.quota, source := d.source }

/-- What a step makes of a workspace, and what it answers. -/
inductive Goes (w : Workspace) : Step → Except Refusal Answer × Workspace → Prop
  | acted {a : Action} {answer : Answer} {w' : Workspace} (h : w.Becomes a w') :
      w.Goes (.act a) (.ok answer, w')
  | refused {t : Step} {e : Refusal} (he : e.IsOfRequest) : w.Goes t (.error e, w)
  | drew {label : Text} {i : Nat} {q : Quota} (hi : w.quotaPlace label = .ok i)
      (hq : w.store.quotas[i]? = some q) :
      w.Goes (.draw label) (((q.draw w.source).result.map .letter).mapError .faulty,
        w.drawn i (q.draw w.source))
  | drewDue {label : Text} {i : Nat} {q : Quota} (hi : w.quotaPlace label = .ok i)
      (hq : w.store.quotas[i]? = some q) :
      w.Goes (.drawDue label) (((q.drawDue w.source).result.map .letters).mapError .faulty,
        w.drawn i (q.drawDue w.source))

section Drawing

variable {α : Type} {draw : Quota → Source → Drawing α} {answer : α → Answer}

theorem drawUnder_of_place {i : Nat} {q : Quota} (hi : w.quotaPlace label = .ok i)
    (hq : w.store.quotas[i]? = some q) :
    w.drawUnder label draw answer =
      (((draw q w.source).result.map answer).mapError .faulty, w.drawn i (draw q w.source)) := by
  have hplace : (do
      let i ← w.quotaPlace label
      let q ← w.store.quotaAt i
      return (i, q)) = (.ok (i, q) : Except Refusal (Nat × Quota)) := by
    rw [bind_eq_ok_iff]
    exact ⟨i, hi, bind_eq_ok_iff.2 ⟨q, Store.cellAt_of_some hq, rfl⟩⟩
  rw [drawUnder, hplace]
  rfl

theorem drawUnder_of_error {e : Refusal} (he : w.quotaPlace label = .error e) :
    w.drawUnder label draw answer = (.error e, w) := by
  rw [drawUnder, he]
  rfl

end Drawing

/-- In a sound workspace a label that is bound to no quota is at fault. -/
theorem quotaPlace_cases (hw : w.IsSound) (label : Text) :
    (∃ e, e.IsOfRequest ∧ w.quotaPlace label = .error e) ∨
      ∃ i q, w.quotaPlace label = .ok i ∧ w.store.quotas[i]? = some q := by
  have hends := ends_quotaPlace hw label
  cases h : w.quotaPlace label with
  | error e =>
      rw [h] at hends
      exact .inl ⟨e, hends, rfl⟩
  | ok i =>
      rw [h] at hends
      exact .inr ⟨i, _, rfl, List.getElem?_eq_getElem hends.2⟩

/-- All that a step of a sound workspace can do. -/
theorem goes_step (hw : w.IsSound) (t : Step) : w.Goes t (w.step t) := by
  cases t with
  | act a =>
      have hends := perform_ends hw a
      cases h : w.perform a with
      | error e =>
          rw [h] at hends
          rw [step, h]
          exact .refused hends
      | ok r =>
          rw [h] at hends
          rw [step, h]
          exact .acted hends
  | draw label =>
      rcases quotaPlace_cases hw label with ⟨e, he, hplace⟩ | ⟨i, q, hi, hq⟩
      · rw [step, drawUnder_of_error hplace]
        exact .refused he
      · rw [step, drawUnder_of_place hi hq]
        exact .drew hi hq
  | drawDue label =>
      rcases quotaPlace_cases hw label with ⟨e, he, hplace⟩ | ⟨i, q, hi, hq⟩
      · rw [step, drawUnder_of_error hplace]
        exact .refused he
      · rw [step, drawUnder_of_place hi hq]
        exact .drewDue hi hq

end Workspace

end PasswordPolicy
