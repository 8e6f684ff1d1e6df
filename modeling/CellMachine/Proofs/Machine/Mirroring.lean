import Mathlib
import CellMachine.Proofs.Machine.Contract

/-!
# Computations that mirror each other

Two runs in different states can answer each other step by step.  `Exec.Mirrors` relates two
computations: started in related states, the second one does what the first one does, and answers
and states are related again.  Faults are mirrored as well, with one exception: where the first
computation runs out of stack, nothing is said of the second one.

The rules follow the ways in which computations are built, as those of `Exec.Meets` do for one run.
-/

namespace CellMachine
namespace Exec

variable {α α' β β' γ : Type} {before : State → State → Prop}

def Mirrors (before : State → State → Prop) (m : Exec α) (m' : Exec α')
    (after : α → α' → State → State → Prop) : Prop :=
  ∀ state state', before state state' →
    match m.run state with
    | .ok x next => ∃ x' next', m'.run state' = .ok x' next' ∧ after x x' next next'
    | .error fault _ => fault = .stackOverflow ∨ ∃ next', m'.run state' = .error fault next'

/-! ## Using mirrored runs -/

/-- A success is mirrored by a success. -/
theorem Mirrors.ok {m : Exec α} {m' : Exec α'} {after : α → α' → State → State → Prop}
    (h : Mirrors before m m' after) {state state' next : State} {x : α}
    (hs : before state state') (hrun : m.run state = .ok x next) :
    ∃ x' next', m'.run state' = .ok x' next' ∧ after x x' next next' := by
  have := h state state' hs
  rwa [hrun] at this

/-- A fault is mirrored by the same fault, unless the stack was exhausted. -/
theorem Mirrors.error {m : Exec α} {m' : Exec α'} {after : α → α' → State → State → Prop}
    (h : Mirrors before m m' after) {state state' next : State} {fault : Fault}
    (hs : before state state') (hrun : m.run state = .error fault next)
    (hfault : fault ≠ .stackOverflow) : ∃ next', m'.run state' = .error fault next' := by
  have := h state state' hs
  rw [hrun] at this
  exact this.resolve_left hfault

/-- What is known of the two runs by themselves may be used as well. -/
theorem Mirrors.of_runs {m : Exec α} {m' : Exec α'} {after after' : α → α' → State → State → Prop}
    (h : Mirrors before m m' after)
    (hafter : ∀ state state' x x' next next', before state state' → m.run state = .ok x next →
      m'.run state' = .ok x' next' → after x x' next next' → after' x x' next next') :
    Mirrors before m m' after' := by
  intro state state' hs
  have hmirrors := h state state' hs
  split
  · rename_i x next hrun
    rw [hrun] at hmirrors
    rcases hmirrors with ⟨x', next', hrun', hnext⟩
    exact ⟨x', next', hrun', hafter _ _ _ _ _ _ hs hrun hrun' hnext⟩
  · rename_i fault next hrun
    rwa [hrun] at hmirrors

/-- A relation between the results may say less. -/
theorem Mirrors.mono {m : Exec α} {m' : Exec α'} {before' : State → State → Prop}
    {after after' : α → α' → State → State → Prop} (h : Mirrors before m m' after)
    (hbefore : ∀ state state', before' state state' → before state state')
    (hafter : ∀ x x' state state', after x x' state state' → after' x x' state state') :
    Mirrors before' m m' after' := by
  intro state state' hs
  exact h.of_runs (fun _ _ _ _ _ _ _ _ _ hnext => hafter _ _ _ _ hnext) state state'
    (hbefore state state' hs)

/-! ## Rules -/

theorem Mirrors.pure {x : α} {x' : α'} {after : α → α' → State → State → Prop}
    (h : ∀ state state', before state state' → after x x' state state') :
    Mirrors before (pure x) (pure x') after :=
  fun state state' hs => ⟨x', state', rfl, h state state' hs⟩

theorem Mirrors.throw (fault : Fault) {after : α → α' → State → State → Prop} :
    Mirrors before (throw fault) (throw fault) after :=
  fun _ state' _ => .inr ⟨state', rfl⟩

/-- Computations that are mirrored step by step are mirrored as a whole. -/
theorem Mirrors.bind {m : Exec α} {m' : Exec α'} {f : α → Exec β} {f' : α' → Exec β'}
    (between : α → α' → State → State → Prop) {after : β → β' → State → State → Prop}
    (hm : Mirrors before m m' between)
    (hf : ∀ x x', Mirrors (between x x') (f x) (f' x') after) :
    Mirrors before (m >>= f) (m' >>= f') after := by
  intro state state' hs
  have hmirrors := hm state state' hs
  rw [EStateM.run_bind, EStateM.run_bind]
  cases hrun : m.run state with
  | ok x next =>
      rw [hrun] at hmirrors
      rcases hmirrors with ⟨x', next', hrun', hnext⟩
      rw [hrun']
      exact hf x x' next next' hnext
  | error fault next =>
      rw [hrun] at hmirrors
      refine hmirrors.imp id ?_
      rintro ⟨next', hrun'⟩
      rw [hrun']
      exact ⟨next', rfl⟩

theorem Mirrors.modify {f f' : State → State} {after : Unit → Unit → State → State → Prop}
    (h : ∀ state state', before state state' → after () () (f state) (f' state')) :
    Mirrors before (modify f) (modify f') after :=
  fun state state' hs => ⟨(), f' state', rfl, h state state' hs⟩

/-- What both computations read first are the states from which they go on. -/
theorem Mirrors.get_bind {f : State → Exec α} {f' : State → Exec α'}
    {after : α → α' → State → State → Prop}
    (h : ∀ read read', before read read' →
      Mirrors (fun state state' => state = read ∧ state' = read') (f read) (f' read') after) :
    Mirrors before (get >>= f) (get >>= f') after :=
  fun state state' hs => h state state' hs state state' ⟨rfl, rfl⟩

theorem Mirrors.ofExcept {decision : Except Fault α} {decision' : Except Fault α'}
    {after : α → α' → State → State → Prop}
    (h : ∀ state state', before state state' →
      match decision with
      | .ok x => ∃ x', decision' = .ok x' ∧ after x x' state state'
      | .error fault => fault = .stackOverflow ∨ decision' = .error fault) :
    Mirrors before (ofExcept decision) (ofExcept decision') after := by
  intro state state' hs
  have hdecision := h state state' hs
  cases decision with
  | ok x =>
      rcases hdecision with ⟨x', rfl, hafter⟩
      exact ⟨x', state', rfl, hafter⟩
  | error fault =>
      rcases hdecision with hfault | rfl
      · exact .inl hfault
      · exact .inr ⟨state', rfl⟩

/-- Decisions are mirrored if they are the same up to the relation. -/
theorem Mirrors.decide {f : State → Except Fault α} {f' : State → Except Fault α'}
    {after : α → α' → State → State → Prop}
    (h : ∀ state state', before state state' →
      match f state with
      | .ok x => ∃ x', f' state' = .ok x' ∧ after x x' state state'
      | .error fault => fault = .stackOverflow ∨ f' state' = .error fault) :
    Mirrors before (decide f) (decide f') after := by
  refine Mirrors.get_bind fun read read' hs => Mirrors.ofExcept ?_
  rintro _ _ ⟨rfl, rfl⟩
  exact h _ _ hs

theorem Mirrors.updateStack {f f' : Stack → Except Fault Stack}
    {after : Unit → Unit → State → State → Prop}
    (h : ∀ state state', before state state' →
      match f state.stack with
      | .ok stack => ∃ stack', f' state'.stack = .ok stack' ∧
          after () () { state with stack := stack } { state' with stack := stack' }
      | .error fault => fault = .stackOverflow ∨ f' state'.stack = .error fault) :
    Mirrors before (updateStack f) (updateStack f') after := by
  refine Mirrors.get_bind fun read read' hs => ?_
  refine Mirrors.bind (fun stack stack' state state' => state = read ∧ state' = read' ∧
      after () () { read with stack := stack } { read' with stack := stack' })
    (Mirrors.ofExcept ?_) ?_
  · rintro _ _ ⟨rfl, rfl⟩
    have hdecision := h _ _ hs
    split
    · rename_i stack hstack
      rw [hstack] at hdecision
      rcases hdecision with ⟨stack', hstack', hafter⟩
      exact ⟨stack', hstack', rfl, rfl, hafter⟩
    · rename_i fault hfault
      rwa [hfault] at hdecision
  · rintro stack stack' _ _ ⟨rfl, rfl, hafter⟩
    exact ⟨(), _, rfl, hafter⟩

/-! ## Computations that cannot tell states apart -/

/-- A computation that gives the same answer, or raises the same fault, in related states, and
leaves them related. -/
def Lockstep (related : State → State → Prop) (m : Exec α) : Prop :=
  Mirrors related m m fun x x' state state' => x = x' ∧ related state state'

variable {related : State → State → Prop}

theorem Lockstep.pure (x : α) : Lockstep related (pure x) :=
  Mirrors.pure fun _ _ hs => ⟨rfl, hs⟩

theorem Lockstep.throw (fault : Fault) : Lockstep related (throw fault : Exec α) :=
  Mirrors.throw fault

/-- Computations in lockstep stay in lockstep one after the other. -/
theorem Lockstep.bind {m : Exec α} {f : α → Exec β} (hm : Lockstep related m)
    (hf : ∀ x, Lockstep related (f x)) : Lockstep related (m >>= f) := by
  refine Mirrors.bind _ hm fun x x' => ?_
  rintro state state' ⟨rfl, hs⟩
  exact hf x state state' hs

theorem Lockstep.modify {f : State → State}
    (h : ∀ state state', related state state' → related (f state) (f state')) :
    Lockstep related (modify f) :=
  Mirrors.modify fun state state' hs => ⟨rfl, h state state' hs⟩

/-- A question that has one answer in related states. -/
theorem Lockstep.decide {f : State → Except Fault α}
    (h : ∀ state state', related state state' → f state' = f state) :
    Lockstep related (decide f) := by
  refine Mirrors.decide fun state state' hs => ?_
  have heq := h state state' hs
  cases hf : f state with
  | ok x => exact ⟨x, heq.trans hf, rfl, hs⟩
  | error fault => exact .inr (heq.trans hf)

/-- Going over a list stays in lockstep. -/
theorem Lockstep.mapM {f : α → Exec β} (list : List α) (h : ∀ x, Lockstep related (f x)) :
    Lockstep related (list.mapM f) := by
  induction list with
  | nil => exact Lockstep.pure _
  | cons x list ih =>
      rw [List.mapM_cons]
      exact (h x).bind fun y => ih.bind fun ys => Lockstep.pure _

end Exec
end CellMachine
