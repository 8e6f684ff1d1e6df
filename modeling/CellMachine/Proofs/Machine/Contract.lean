import Mathlib
import CellMachine.Machine.State

/-!
# Contracts of computations

A contract says what a computation on states does from every state with a property: how its answer
and the state after it are related when it succeeds, and how its fault and the state after it are
related when it fails.  A failing computation keeps its changes, so both halves matter: what a run
preserves has to hold after a fault as well.

The rules follow the ways in which computations are built.
-/

namespace CellMachine

/-! ## Decisions -/

/-- Whether a fault is one that an instruction raises by itself, and not a jump out of the code. -/
def Fault.IsLocal (fault : Fault) : Prop :=
  ∀ target, fault ≠ .jumpOutOfRange target

section

variable {α β : Type}

/-- What a decision yields, if its faults are local. -/
def Yields (decision : Except Fault α) (after : α → Prop) : Prop :=
  match decision with
  | .ok x => after x
  | .error fault => fault.IsLocal

/-- An answer has the property that was promised. -/
theorem Yields.ok {decision : Except Fault α} {after : α → Prop} (h : Yields decision after) {x : α}
    (hx : decision = .ok x) : after x := by
  rwa [hx] at h

/-- A fault of a decision is local. -/
theorem Yields.error {decision : Except Fault α} {after : α → Prop} (h : Yields decision after)
    {fault : Fault} (hfault : decision = .error fault) : fault.IsLocal := by
  rwa [hfault] at h

theorem Yields.mono {decision : Except Fault α} {after after' : α → Prop}
    (h : Yields decision after) (hafter : ∀ x, after x → after' x) : Yields decision after' := by
  cases decision with
  | ok x => exact hafter x h
  | error fault => exact h

/-- What a decision yields is in particular its own answer. -/
theorem Yields.self {decision : Except Fault α} {after : α → Prop} (h : Yields decision after) :
    Yields decision fun x => decision = .ok x ∧ after x := by
  cases decision with
  | ok x => exact ⟨rfl, h⟩
  | error fault => exact h

/-- Two decisions in a row yield what the second one does. -/
theorem Yields.bind {decision : Except Fault α} {f : α → Except Fault β} {between : α → Prop}
    {after : β → Prop} (h : Yields decision between) (hf : ∀ x, between x → Yields (f x) after) :
    Yields (decision >>= f) after := by
  cases decision with
  | ok x => exact hf x h
  | error fault => exact h

theorem Yields.map {decision : Except Fault α} {f : α → β} {after : β → Prop}
    (h : Yields decision fun x => after (f x)) : Yields (f <$> decision) after := by
  cases decision with
  | ok x => exact h
  | error fault => exact h

theorem Yields.throw {fault : Fault} {after : α → Prop} (h : fault.IsLocal) :
    Yields (.error fault) after :=
  h

end

/-! ## Contracts -/

namespace Exec

variable {α β : Type} {before : State → Prop} {broken : Fault → State → Prop}

def Meets (before : State → Prop) (m : Exec α) (after : α → State → Prop)
    (broken : Fault → State → Prop) : Prop :=
  ∀ state, before state →
    match m.run state with
    | .ok x state => after x state
    | .error fault state => broken fault state

/-! ## Using contracts -/

/-- A success meets the contract. -/
theorem Meets.ok {m : Exec α} {after : α → State → Prop} (h : Meets before m after broken)
    {state state' : State} {x : α} (hs : before state) (hrun : m.run state = .ok x state') :
    after x state' := by
  have := h state hs
  rwa [hrun] at this

/-- A fault meets the other half of the contract. -/
theorem Meets.error {m : Exec α} {after : α → State → Prop} (h : Meets before m after broken)
    {state state' : State} {fault : Fault} (hs : before state)
    (hrun : m.run state = .error fault state') : broken fault state' := by
  have := h state hs
  rwa [hrun] at this

/-- A contract may promise less. -/
theorem Meets.mono {m : Exec α} {after after' : α → State → Prop}
    {broken' : Fault → State → Prop} (h : Meets before m after broken)
    (hok : ∀ x state, after x state → after' x state)
    (herror : ∀ fault state, broken fault state → broken' fault state) :
    Meets before m after' broken' := by
  intro state hs
  have := h state hs
  split
  · rename_i x state' hrun
    rw [hrun] at this
    exact hok x state' this
  · rename_i fault state' hrun
    rw [hrun] at this
    exact herror fault state' this

/-! ## Rules -/

theorem Meets.pure {x : α} {after : α → State → Prop} (h : ∀ state, before state → after x state) :
    Meets before (pure x) after broken :=
  h

theorem Meets.throw {fault : Fault} {after : α → State → Prop}
    (h : ∀ state, before state → broken fault state) :
    Meets before (throw fault) after broken :=
  h

/-- The second computation starts from what the first one promises, and a fault of either is a fault
of both. -/
theorem Meets.bind {m : Exec α} {f : α → Exec β} {between : α → State → Prop}
    {after : β → State → Prop} (hm : Meets before m between broken)
    (hf : ∀ x, Meets (between x) (f x) after broken) : Meets before (m >>= f) after broken := by
  intro state hs
  have hstate := hm state hs
  rw [EStateM.run_bind]
  cases hrun : m.run state with
  | ok x state' =>
      rw [hrun] at hstate
      exact hf x state' hstate
  | error fault state' =>
      rw [hrun] at hstate
      exact hstate

/-- What a computation reads first is the state from which it goes on. -/
theorem Meets.get_bind {f : State → Exec α} {after : α → State → Prop}
    (h : ∀ read, before read → Meets (fun state => state = read) (f read) after broken) :
    Meets before (get >>= f) after broken :=
  fun state hs => h state hs state rfl

theorem Meets.get {after : State → State → Prop} (h : ∀ state, before state → after state state) :
    Meets before get after broken :=
  h

theorem Meets.modify {f : State → State} {after : Unit → State → Prop}
    (h : ∀ state, before state → after () (f state)) : Meets before (modify f) after broken :=
  h

/-- A decision leaves the state alone, so the contract speaks of one state. -/
theorem Meets.decide {f : State → Except Fault α} {after : α → State → Prop}
    (hok : ∀ state x, before state → f state = .ok x → after x state)
    (herror : ∀ state fault, before state → f state = .error fault → broken fault state) :
    Meets before (decide f) after broken := by
  intro state hs
  change match (ofExcept (f state)).run state with
    | .ok x state => after x state
    | .error fault state => broken fault state
  cases hf : f state with
  | ok x => exact hok state x hs hf
  | error fault => exact herror state fault hs hf

theorem Meets.updateStack {f : Stack → Except Fault Stack} {after : Unit → State → Prop}
    (hok : ∀ state stack, before state → f state.stack = .ok stack →
      after () { state with stack := stack })
    (herror : ∀ state fault, before state → f state.stack = .error fault → broken fault state) :
    Meets before (updateStack f) after broken := by
  refine Meets.get_bind fun state hs => ?_
  cases hf : f state.stack with
  | ok stack =>
      rintro _ rfl
      exact hok _ stack hs hf
  | error fault =>
      rintro _ rfl
      exact herror _ fault hs hf

/-- A loop over a list keeps what each of its rounds keeps. -/
theorem Meets.mapM {f : α → Exec β} {list : List α}
    (h : ∀ x ∈ list, Meets before (f x) (fun _ => before) broken) :
    Meets before (list.mapM f) (fun _ => before) broken := by
  induction list with
  | nil => exact Meets.pure fun _ hs => hs
  | cons x list ih =>
      rw [List.mapM_cons]
      refine Meets.bind (h x (List.mem_cons_self ..)) fun y => ?_
      refine Meets.bind (ih fun x hx => h x (List.mem_cons_of_mem _ hx)) fun ys => ?_
      exact Meets.pure fun _ hs => hs

/-! ## Properties that are kept -/

/-- A computation that keeps a property, also when it raises a fault, which is local. -/
def Keeps (property : State → Prop) (m : Exec α) : Prop :=
  Meets property m (fun _ => property) fun fault state => fault.IsLocal ∧ property state

variable {property : State → Prop}

/-- A property of the state and an answer together are kept by what asks the state only. -/
theorem Meets.asks {f : State → Except Fault α} {after : State → α → Prop}
    (h : ∀ state, Yields (f state) (after state)) :
    Meets property (Exec.decide f) (fun x state => property state ∧ after state x)
      fun fault state => fault.IsLocal ∧ property state :=
  Meets.decide (fun state _ hs hf => ⟨hs, (h state).ok hf⟩)
    fun state _ hs hf => ⟨(h state).error hf, hs⟩

theorem Keeps.throw {fault : Fault} (h : fault.IsLocal) :
    Keeps property (throw fault : Exec α) :=
  Meets.throw fun _ hs => ⟨h, hs⟩

theorem Keeps.pure (x : α) : Keeps property (pure x) :=
  Meets.pure fun _ hs => hs

/-- Two computations that keep a property keep it one after the other. -/
theorem Keeps.bind {m : Exec α} {f : α → Exec β} (hm : Keeps property m)
    (hf : ∀ x, Keeps property (f x)) : Keeps property (m >>= f) :=
  Meets.bind hm hf

theorem Keeps.get : Keeps property get :=
  Meets.get fun _ hs => hs

/-! ## Parts of runs -/

/-- Two computations that succeed one after the other succeed each. -/
theorem run_bind_ok {m : Exec α} {f : α → Exec β} {start after : State} {y : β}
    (h : (m >>= f).run start = .ok y after) :
    ∃ x between, m.run start = .ok x between ∧ (f x).run between = .ok y after := by
  rw [EStateM.run_bind] at h
  cases hm : m.run start with
  | ok x between =>
      rw [hm] at h
      exact ⟨x, between, rfl, h⟩
  | error fault between =>
      rw [hm] at h
      cases h

theorem run_bind_of_ok {m : Exec α} {f : α → Exec β} {start between : State} {x : α}
    (h : m.run start = .ok x between) : (m >>= f).run start = (f x).run between := by
  rw [EStateM.run_bind, h]

/-- Of two computations in a row, one that fails fails first, or after the other has succeeded. -/
theorem run_bind_error {m : Exec α} {f : α → Exec β} {start after : State} {fault : Fault}
    (h : (m >>= f).run start = .error fault after) :
    m.run start = .error fault after ∨
      ∃ x between, m.run start = .ok x between ∧ (f x).run between = .error fault after := by
  rw [EStateM.run_bind] at h
  cases hm : m.run start with
  | ok x between =>
      rw [hm] at h
      exact .inr ⟨x, between, rfl, h⟩
  | error fault' between =>
      rw [hm] at h
      cases h
      exact .inl rfl

/-- A decision that succeeds has left the state alone. -/
theorem run_decide_ok {f : State → Except Fault α} {start after : State} {x : α}
    (h : (Exec.decide f).run start = .ok x after) : f start = .ok x ∧ after = start := by
  change (ofExcept (f start)).run start = .ok x after at h
  cases hf : f start with
  | ok y =>
      rw [hf] at h
      cases h
      exact ⟨rfl, rfl⟩
  | error fault =>
      rw [hf] at h
      cases h

theorem run_decide_of_ok {f : State → Except Fault α} {state : State} {x : α}
    (h : f state = .ok x) : (Exec.decide f).run state = .ok x state := by
  change (ofExcept (f state)).run state = _
  rw [h]
  rfl

/-- An operation on the stack that succeeds changes the stack only. -/
theorem run_updateStack_ok {f : Stack → Except Fault Stack} {start after : State}
    (h : (Exec.updateStack f).run start = .ok () after) :
    ∃ stack, f start.stack = .ok stack ∧ after = { start with stack := stack } := by
  rcases run_bind_ok h with ⟨state, between, hget, h⟩
  cases hget
  rcases run_bind_ok h with ⟨stack, between, hstack, h⟩
  cases hf : f start.stack with
  | ok stack' =>
      rw [hf] at hstack
      cases hstack
      cases h
      exact ⟨stack, rfl, rfl⟩
  | error fault =>
      rw [hf] at hstack
      cases hstack

theorem run_updateStack_of_ok {f : Stack → Except Fault Stack} {state : State} {stack : Stack}
    (h : f state.stack = .ok stack) :
    (Exec.updateStack f).run state = .ok () { state with stack := stack } := by
  change (ofExcept (f state.stack) >>= fun stack => set { state with stack := stack }).run state = _
  rw [h]
  rfl

/-- An operation on the stack that fails changes nothing. -/
theorem run_updateStack_of_error {f : Stack → Except Fault Stack} {state : State} {fault : Fault}
    (h : f state.stack = .error fault) :
    (Exec.updateStack f).run state = .error fault state := by
  change (ofExcept (f state.stack) >>= fun stack => set { state with stack := stack }).run state = _
  rw [h]
  rfl

end Exec
end CellMachine
