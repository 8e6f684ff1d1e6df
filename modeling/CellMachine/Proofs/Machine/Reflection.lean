import Mathlib
import CellMachine.Proofs.Machine.Alignment
import CellMachine.Proofs.Machine.Room

/-!
# What library functions see of frames

A library function has a frame of its own below the arguments that were pushed for it, and reads
them from there.  Two functions look further: `totalarguments` and `argument` follow the saved frame
of their caller, and answer nothing if that is the outermost one.

`CallStack.Rests.prepare` says that the frame of a library function is that of an open call like any
other, so the words and arguments of its caller are found where the open calls have them.
`Machine.reflects_of_rests` concludes what the two functions answer.
-/

namespace CellMachine

open Activation Library.Standard

/-! ## Libraries -/

namespace Library

/-- A name that is registered stands for its function, all other names for what they stood for. -/
theorem find?_register (library : Library) (name : String) (function : Exec Unit)
    (other : String) :
    (library.register name function).find? other =
      if other = name then some function else library.find? other := by
  rcases library with ⟨functions⟩
  change (register.go name function functions).lookup other =
    if other = name then some function else functions.lookup other
  have hcons (first : String) (known : Exec Unit) (rest : List (String × Exec Unit)) :
      ((first, known) :: rest).lookup other =
        if other = first then some known else rest.lookup other := by
    rw [List.lookup_cons]
    split
    · rename_i heq
      rw [if_pos (beq_iff_eq.1 heq)]
    · rename_i hne
      rw [if_neg (beq_eq_false_iff_ne.1 hne)]
  induction functions with
  | nil => rw [register.go, hcons, List.lookup_nil]
  | cons entry rest ih =>
      rcases entry with ⟨first, known⟩
      rw [register.go]
      split
      · -- The new function takes the place of the one with its name.
        rename_i hfirst
        rw [hcons, hcons, show first = name from hfirst]
        split <;> rfl
      · rename_i hfirst
        have hne : first ≠ name := hfirst
        rw [hcons, hcons, ih]
        grind

/-- Whether a library has the standard functions, and no others than such that leave the stack
alone. -/
structure ExtendsStandard (library : Library) : Prop where
  standard : ∀ name function, Library.standard.find? name = some function →
    library.find? name = some function
  leavesStacks : library.LeavesStacks

/-- The standard library extends itself. -/
theorem standard_extendsStandard : standard.ExtendsStandard :=
  ⟨fun _ _ h => h, standard_leavesStacks⟩

/-- A library may be extended by a function of another name. -/
theorem ExtendsStandard.register {library : Library} (h : library.ExtendsStandard) {name : String}
    {function : Exec Unit} (hname : Library.standard.find? name = none)
    (hfunction : function.LeavesStack) : (library.register name function).ExtendsStandard := by
  refine ⟨fun other known hfind => ?_, fun other known hfind => ?_⟩
  · have hne : other ≠ name := by
      rintro rfl
      cases hname.symm.trans hfind
    rw [find?_register, if_neg hne]
    exact h.standard other known hfind
  · rw [find?_register] at hfind
    split at hfind
    · cases hfind
      exact hfunction
    · exact h.leavesStacks other known hfind

end Library

/-- A natural number is its own index. -/
theorem index?_ofNat {n : Nat} (h : n ≤ 2 ^ 53) : index? (Number.ofNat n) = some n := by
  have hint : Number.toInt? (Number.ofNat n) = some (Int.ofNat n) := by
    rw [Number.toInt?, Number.value_ofNat h]
    simp only [Nat.mul_mod_left, Nat.mul_div_cancel n Number.one_pos]
    rfl
  rw [index?, hint]

/-! ## The frame of a library function -/

namespace CallStack

variable {calls : CallStack} {size : Nat} {state prepared : State} {name : String}

/-- While a library function executes, its call is the innermost one. -/
theorem Rests.prepare (h : calls.Rests size state)
    (hrun : (Exec.prepare name).run state = .ok () prepared) :
    (calls.within state.pc).Rests size prepared := by
  rcases Exec.run_bind_ok hrun with ⟨⟨⟩, reported, hreport, hrun⟩
  cases hreport
  have hreported : calls.Rests size (state.report (.callsLibrary name state.pending)) :=
    h.of_agree rfl fun _ _ => rfl
  rcases Exec.run_bind_ok hrun with ⟨⟨⟩, saved, hsave, hrun⟩
  have henters := hreported.callUser hsave
  rcases Exec.run_bind_ok hrun with ⟨⟨⟩, opened, hopen, hnil⟩
  have hopened : (calls.within state.pc).Rests size opened := by
    cases hopen
    exact henters.opened rfl (Nat.zero_le _) fun _ => rfl
  cases hnil
  exact hopened.of_agree (State.registers_overwrite _ _ _) fun _ _ => rfl

/-- If there is room for the environment of a call, its function is started. -/
theorem Rests.exists_prepared (h : calls.Rests size state)
    (hroom : Stack.environmentSize ≤ state.stack.top) (name : String) :
    ∃ prepared, (Exec.prepare name).run state = .ok () prepared ∧
      (calls.within state.pc).Rests size prepared ∧ Exec.Prepares state prepared := by
  obtain ⟨⟨⟩, prepared, hprepare, -⟩ := (Exec.prepare_takes name).fits state hroom
  have htop := Nat.lt_of_le_of_lt (Nat.le_add_right _ _) h.pointer_bounds.2
  exact ⟨prepared, hprepare, h.prepare hprepare, Exec.prepare_prepares htop hprepare⟩

/-- The arguments of a call are the pending ones, with the last one pushed at the top. -/
theorem Rests.argument_address (h : calls.Rests size state) (pc : Nat)
    (hroom : Stack.environmentSize ≤ state.stack.top) :
    (calls.call pc).frame + Stack.environmentSize = state.stack.top := by
  have htop := h.top_eq
  have hpending := h.pending_eq
  simp only [Call.frame, call, Stack.environmentSize] at hroom ⊢
  omega

/-! ## What a function reads of its frame and of its caller -/

section

variable {activation : Activation} {rest : List Activation} (h : calls.Rests size state)
  (hsize : size ≤ 2 ^ 53) (hlist : calls.activations = activation :: rest)
include h hsize hlist

/-- The count of arguments is that of the innermost call. -/
theorem Rests.run_actuals : Exec.actuals.run state = .ok activation.actuals state := by
  have hmem : activation ∈ calls.activations := hlist ▸ List.mem_cons_self ..
  refine Exec.run_decide_of_ok ?_
  rw [h.frame_eq, frame, hlist]
  exact (Machine.words_of_rests hsize h hmem).2.2.2

/-- An argument is found above the environment, if there are so many. -/
theorem Rests.run_actual (index : Nat) : (Exec.actual index).run state =
    .ok (if index < activation.actuals then
      some (state.stack.read (activation.frame + (Stack.environmentSize + 1 + index)))
      else none) state := by
  have hmem : activation ∈ calls.activations := hlist ▸ List.mem_cons_self ..
  refine Exec.run_decide_of_ok ?_
  rw [h.frame_eq, frame, hlist]
  exact h.actualAt_eq hsize hmem index

/-- The caller is the next older activation, if there is one. -/
theorem Rests.run_callerFrame :
    Exec.callerFrame.run state = .ok (rest.head?.map fun caller => caller.frame) state :=
  Exec.run_decide_of_ok (h.callerFrame_eq hsize hlist)

/-- What `totalarguments` does in its frame. -/
theorem Rests.run_totalArguments : totalArguments.run state =
    .ok () (match rest.head? with
      | none => state.report (.outsideFunction "totalarguments")
      | some caller => state.overwrite .result (.number (Number.ofNat caller.actuals))) := by
  rw [totalArguments, Exec.run_bind_of_ok (h.run_callerFrame hsize hlist)]
  cases rest with
  | nil => rfl
  | cons caller older =>
      have hmem : caller ∈ calls.activations := by simp [hlist]
      have hcount : state.stack.actualsAt caller.frame = .ok caller.actuals :=
        (Machine.words_of_rests hsize h hmem).2.2.2
      change (Exec.decide (fun state => state.stack.actualsAt caller.frame) >>= fun count =>
        Exec.setResult (.number (Number.ofNat count))).run state = _
      rw [Exec.run_bind_of_ok (Exec.run_decide_of_ok hcount)]
      rfl

/-- What `argument` does in its frame. -/
theorem Rests.run_argument {x : Float} {index : Nat} (hpassed : 0 < activation.actuals)
    (hread : state.stack.read (activation.frame + (Stack.environmentSize + 1)) = .number x)
    (hindex : index? x = some index) : argument.run state =
    .ok () (match rest.head? with
      | none => state.report (.outsideFunction "argument")
      | some caller => state.overwrite .result (if index < caller.actuals then
          state.stack.read (caller.frame + (Stack.environmentSize + 1 + index)) else .nil)) := by
  have hnumber : (numberOf "argument").run state = .ok x state := by
    have hactual := h.run_actual hsize hlist 0
    rw [if_pos hpassed, Nat.add_zero, hread] at hactual
    have hargument : (argumentOf "argument" 0).run state = .ok (.number x) state := by
      rw [argumentOf, Exec.run_bind_of_ok hactual]
      rfl
    rw [numberOf, Exec.run_bind_of_ok hargument]
    rfl
  rw [argument, Exec.run_bind_of_ok hnumber]
  simp only [hindex]
  rw [Exec.run_bind_of_ok (h.run_callerFrame hsize hlist)]
  cases rest with
  | nil => rfl
  | cons caller older =>
      have hmem : caller ∈ calls.activations := by simp [hlist]
      have hbounds := h.nested.caller_bounds hmem
      have houtermost := h.outermost_eq
      -- An index beyond the largest word is beyond the count of arguments as well.
      have hcell := h.actualAt_eq hsize hmem (min index Number.maxWord)
      have hmax : (2 : Nat) ^ 53 < Number.maxWord := by decide
      change (Exec.decide (fun state => state.stack.actualAt caller.frame
        (min index Number.maxWord)) >>= fun cell => Exec.setResult (cell.getD .nil)).run state = _
      rw [Exec.run_bind_of_ok (Exec.run_decide_of_ok hcell)]
      by_cases hlt : index < caller.actuals
      · have hmin : min index Number.maxWord = index := by omega
        rw [hmin, if_pos hlt]
        exact congrArg _ (congrArg _ (if_pos hlt).symm)
      · have hmin : ¬ min index Number.maxWord < caller.actuals := by omega
        rw [if_neg hmin]
        exact congrArg _ (congrArg _ (if_neg hlt).symm)

end

end CallStack

/-! ## What a call answers -/

def State.formal (state : State) (index : Nat) : Cell :=
  state.stack.read (state.stack.frame + (Stack.environmentSize + 1 + index))

namespace Machine

variable {machine : Machine} {stackSize : Nat} {state prepared answered : State}
  {calls : CallStack} {instruction : Instruction} {name : String} {function : Exec Unit}

def DecodesAt (machine : Machine) (state : State) (action : Action) : Prop :=
  ∃ instruction, machine.program.code[state.pc]? = some instruction ∧
    machine.decode state instruction = .ok action

/-- Whether a step leaves a cell in the return register and goes on at the next instruction.  The
place to go on is exact up to `2 ^ 53`. -/
structure Answers (machine : Machine) (state : State) (cell : Cell) : Prop where
  result_eq : (machine.step state).2.result = cell
  running : state.pc + 1 ≤ 2 ^ 53 → (machine.step state).1 = .running
  pc_eq : state.pc + 1 ≤ 2 ^ 53 → (machine.step state).2.pc = state.pc + 1

/-- What the two functions that look at their caller answer if there is room to call them: a count,
and the cell of the index that was pushed last. -/
structure Reflects (machine : Machine) (state : State) (count : Cell) (value : Nat → Cell) :
    Prop where
  totalArguments : ∀ function,
    machine.DecodesAt state (.callLibrary "totalarguments" function) →
    Stack.environmentSize ≤ state.stack.top → machine.Answers state count
  argument : ∀ function x index,
    machine.DecodesAt state (.callLibrary "argument" function) →
    Stack.environmentSize ≤ state.stack.top → 0 < state.pending →
    state.stack.read (state.stack.top + 1) = .number x → index? x = some index →
    machine.Answers state (value index)

/-- A call whose function answers restores the caller and goes on after the call, if the place to go
on is exact. -/
theorem step_callLibrary (hsize : state.stack.size ≤ 2 ^ 53)
    (hframe : state.stack.frame < state.stack.size)
    (hbase : state.stack.top + state.pending < state.stack.size) (hgoing : state.finished = false)
    (hget : machine.program.code[state.pc]? = some instruction)
    (hdecode : machine.decode state instruction = .ok (.callLibrary name function))
    (hfunction : function.LeavesStack)
    (hprepare : (Exec.prepare name).run (fetched state instruction) = .ok () prepared)
    (hanswer : function.run prepared = .ok () answered) :
    ∃ target restored progress pc,
      (Exec.callLibrary name function).run (fetched state instruction) = .ok target restored ∧
      restored = Exec.restore answered
        ⟨state.stack.top + state.pending, state.stack.frame, target⟩ ∧
      machine.step state = (progress, { restored with pc := pc }) ∧
      (state.pc + 1 ≤ 2 ^ 53 → progress = .running ∧ pc = state.pc + 1) := by
  obtain ⟨target, htarget⟩ := Number.exists_toWord?_ofNat (state.pc + 1)
  have hcall := Exec.run_callLibrary hfunction hprepare hanswer hsize hframe hbase htarget
  have hdecode' : machine.decode (fetched state instruction) instruction =
      .ok (.callLibrary name function) := hdecode
  have hrun := (run_execute_of_ok hdecode').trans (Exec.run_bind_of_ok hcall)
  have hexact (hpc : state.pc + 1 ≤ 2 ^ 53) : target = state.pc + 1 :=
    Option.some.inj (htarget.symm.trans (Number.toWord?_ofNat hpc))
  have hlt : state.pc < machine.program.code.size := (Array.getElem?_eq_some_iff.1 hget).1
  -- Whether the step goes on at the target or faults there, the caller is restored.
  by_cases hle : target ≤ machine.program.code.size
  · exact ⟨target, _, .running, target, hcall, rfl, step_of_jump hgoing hget hrun hle,
      fun hpc => ⟨rfl, hexact hpc⟩⟩
  · exact ⟨target, _, _, _, hcall, rfl, step_of_astray hgoing hget hrun (Nat.lt_of_not_le hle),
      fun hpc => absurd (hexact hpc ▸ hlt) hle⟩

/-- A call whose function answers in its frame answers the same. -/
theorem answers_of_run (hsize : stackSize ≤ 2 ^ 53) (hrests : calls.Rests stackSize state)
    (hgoing : state.finished = false)
    (hget : machine.program.code[state.pc]? = some instruction)
    (hdecode : machine.decode state instruction = .ok (.callLibrary name function))
    (hfunction : function.LeavesStack)
    (hprepare : (Exec.prepare name).run (fetched state instruction) = .ok () prepared)
    (hanswer : function.run prepared = .ok () answered) :
    machine.Answers state answered.result := by
  have hbounds := hrests.pointer_bounds
  rcases step_callLibrary (hrests.size_eq.trans_le hsize) hbounds.1 hbounds.2 hgoing hget hdecode
    hfunction hprepare hanswer with ⟨target, restored, progress, pc, -, hrestored, hstep, hexact⟩
  refine ⟨?_, fun hpc => ?_, fun hpc => ?_⟩
  · rw [hstep, hrestored]
    exact State.result_clear _ _ _
  · rw [hstep]
    exact (hexact hpc).1
  · rw [hstep]
    exact (hexact hpc).2

/-- A library that extends the standard one has its functions by their names. -/
theorem eq_of_decode (hlibrary : machine.library.ExtendsStandard) {known : Exec Unit}
    (hknown : Library.standard.find? name = some known)
    (hdecode : machine.decode state instruction = .ok (.callLibrary name function)) :
    function = known := by
  cases (machine.decode_yields state instruction).ok hdecode with
  | callLibrary hopcode hfind =>
      exact Option.some.inj (hfind.symm.trans (hlibrary.standard name known hknown))

/-- Reflection answers what the open calls say of the innermost one. -/
theorem reflects_of_rests (hlibrary : machine.library.ExtendsStandard) (hsize : stackSize ≤ 2 ^ 53)
    (hrests : calls.Rests stackSize state) (hgoing : state.finished = false) :
    machine.Reflects state
      (if calls.activations = [] then .nil else .number (Number.ofNat calls.actuals))
      fun index => if index < calls.actuals then state.formal index else .nil where
  totalArguments function hdecodes hroom := by
    rcases hdecodes with ⟨instruction, hget, hdecode⟩
    have hfind : Library.standard.find? "totalarguments" = some totalArguments := rfl
    cases eq_of_decode hlibrary hfind hdecode
    have hfetched : calls.Rests stackSize (fetched state instruction) := hrests.moved _ _ _
    obtain ⟨prepared, hprepare, hwithin, hprepares⟩ :=
      hfetched.exists_prepared hroom "totalarguments"
    have hrun := hwithin.run_totalArguments hsize rfl
    have hanswers := answers_of_run hsize hrests hgoing hget hdecode
      (hlibrary.leavesStacks _ _ (hlibrary.standard _ _ hfind)) hprepare hrun
    rw [CallStack.actuals]
    cases hlist : calls.activations with
    | nil =>
        rw [hlist] at hanswers
        exact hprepares.result_eq ▸ hanswers
    | cons caller older =>
        rw [hlist] at hanswers
        exact hanswers
  argument function x index hdecodes hroom hpending hread hindex := by
    rcases hdecodes with ⟨instruction, hget, hdecode⟩
    have hfind : Library.standard.find? "argument" = some argument := rfl
    cases eq_of_decode hlibrary hfind hdecode
    have hfetched : calls.Rests stackSize (fetched state instruction) := hrests.moved _ _ _
    obtain ⟨prepared, hprepare, hwithin, hprepares⟩ := hfetched.exists_prepared hroom "argument"
    -- The index lies right above the environment of the call.
    have haddress := hrests.argument_address state.pc hroom
    have hindexRead : prepared.stack.read
        ((calls.call state.pc).frame + (Stack.environmentSize + 1)) = .number x := by
      rw [← Nat.add_assoc, haddress]
      exact (hprepares.read_of_lt _ (Nat.lt_succ_self _)).trans hread
    have hpassed : 0 < (calls.call state.pc).actuals := hpending.trans_eq hrests.pending_eq
    have hrun := hwithin.run_argument hsize rfl hpassed hindexRead hindex
    have hanswers := answers_of_run hsize hrests hgoing hget hdecode
      (hlibrary.leavesStacks _ _ (hlibrary.standard _ _ hfind)) hprepare hrun
    have hframe := hrests.frame_eq
    have htop := hrests.top_eq
    rw [CallStack.actuals]
    rw [CallStack.frame] at hframe
    rw [CallStack.base] at htop
    cases hlist : calls.activations with
    | nil =>
        rw [hlist] at hanswers
        exact hprepares.result_eq ▸ hanswers
    | cons caller older =>
        rw [hlist] at hanswers hframe htop
        -- What the caller was passed lies above all that the call pushes.
        have hkept : prepared.stack.read (caller.frame + (Stack.environmentSize + 1 + index)) =
            state.formal index := by
          rw [State.formal, hframe]
          refine hprepares.read_of_lt _ ?_
          change state.stack.top < _
          rw [baseOf, Activation.base] at htop
          rw [Stack.environmentSize]
          omega
        rw [← hkept]
        exact hanswers

end Machine

end CellMachine
