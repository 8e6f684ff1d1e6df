import Mathlib
import CellMachine.Proofs.Machine.Reflection
import CellMachine.Proofs.Machine.Trajectory

/-!
# Arguments

The cells that are pushed for a call are read in three ways: a library function reads them as the
arguments of its own frame, a function of the program as its formals, and the two functions that
look at their caller find them through the frame that they have saved.  The three agree, whatever is
pushed and called in between: `Machine.passes_arguments`.

Two invariants carry this.  Pushing keeps what was pushed before, by induction on the count of
arguments; and the open calls of an invocation stay the oldest ones until it returns, by induction
on the steps since it was entered.
-/

namespace CellMachine

open Activation Library.Standard

/-! ## Pending arguments -/

/-- Whether the pending arguments of a state are some cells, in the order in which they were pushed.
The last one lies right above the top. -/
structure State.Pends (state : State) (count : Nat) (cells : Nat → Cell) : Prop where
  pending_eq : state.pending = count
  read_eq : ∀ index < count,
    state.stack.read (state.stack.top + 1 + index) = cells (count - 1 - index)

/-- A pushed argument comes last and lies lowest. -/
theorem State.Pends.push {state after : State} {count : Nat} {cells : Nat → Cell}
    (h : state.Pends count cells) (htop : state.stack.top < state.stack.size)
    (hrun : (Exec.pushArgument (cells count)).run state = .ok () after) :
    after.Pends (count + 1) cells := by
  rcases Exec.run_pushArgument_ok hrun with ⟨hregisters, hpos, hread⟩
  have htopEq : after.stack.top = state.stack.top - 1 := congrArg Registers.top hregisters
  have hpending : after.pending = state.pending + 1 := congrArg Registers.pending hregisters
  have habove : after.stack.top + 1 = state.stack.top := by omega
  refine ⟨hpending.trans (congrArg (· + 1) h.pending_eq), fun index hindex => ?_⟩
  rw [habove]
  cases index with
  | zero => exact Exec.run_pushArgument_read htop hrun
  | succ index =>
      rw [hread _ (by omega), ← Nat.add_assoc, Nat.add_right_comm, h.read_eq index (by omega)]
      congr 1
      omega

/-! ## Steps -/

namespace Machine

variable {machine : Machine} {stackSize n k m count : Nat} {start state : State}
  {calls : CallStack} {console : Console} {log : Log} {cells : Nat → Cell} {action : Action}

/-- What is decoded to anything but an entry is executed by the innermost activation. -/
theorem rests_of_decodesAt (h : calls.Describes machine stackSize state)
    (hdecodes : machine.DecodesAt state action)
    (haction : ∀ name localSize, action ≠ .enter name localSize) :
    calls.Rests stackSize state := by
  rcases hdecodes with ⟨instruction, hget, hdecode⟩
  rcases h.pointers with hrests | ⟨call, henters, hstart⟩
  · exact hrests
  · rcases machine.decode_enter state (opcode_of_startsFunction hget hstart) hdecode with
      ⟨name, localSize, heq⟩
    exact absurd heq (haction name localSize)

/-- A step that pushes a cell. -/
theorem step_pends (hrests : calls.Rests stackSize state)
    (hdecodes : machine.DecodesAt state (.push (cells count)))
    (hrunning : (machine.step state).1 = .running) (h : state.Pends count cells) :
    (machine.step state).2.Pends (count + 1) cells := by
  rcases hdecodes with ⟨instruction, hget, hdecode⟩
  rcases step_running hrunning hget hdecode with ⟨flow, after, hrun, hafter⟩
  rcases Exec.run_bind_ok hrun with ⟨⟨⟩, between, hpush, hnext⟩
  cases hnext
  have htop := Nat.lt_of_le_of_lt (Nat.le_add_right _ _) hrests.pointer_bounds.2
  have hfetched : (fetched state instruction).Pends count cells := ⟨h.pending_eq, h.read_eq⟩
  have hpends := hfetched.push htop hpush
  rcases hafter with ⟨-, hafter⟩ | ⟨target, hflow, -⟩
  · rw [hafter]
    exact ⟨hpends.pending_eq, hpends.read_eq⟩
  · cases hflow

/-- A step that calls a function leaves the arguments above the environment of the call. -/
theorem step_callUser (hrests : calls.Rests stackSize state) {address : Nat}
    (hdecodes : machine.DecodesAt state (.callUser address))
    (hrunning : (machine.step state).1 = .running) :
    machine.program.startsFunction (machine.step state).2.pc ∧
      (machine.step state).2.stack.top + Stack.environmentSize = state.stack.top ∧
      ∀ address, state.stack.top < address →
        (machine.step state).2.stack.read address = state.stack.read address := by
  rcases hdecodes with ⟨instruction, hget, hdecode⟩
  rcases step_running hrunning hget hdecode with ⟨flow, after, hrun, hafter⟩
  rcases Exec.run_bind_ok hrun with ⟨⟨⟩, between, hcall, hjump⟩
  cases hjump
  have htop := Nat.lt_of_le_of_lt (Nat.le_add_right _ _) hrests.pointer_bounds.2
  -- The call is reported first, and only the environment is saved afterwards.
  have hsaves : Exec.Saves state after :=
    Exec.Saves.of_report (@Exec.callUser_saves _ (fetched state instruction) _ htop hcall)
  have htopEq : after.stack.top = state.call.frame := congrArg Registers.top hsaves.registers_eq
  have hroom : Stack.environmentSize ≤ state.stack.top := hsaves.room
  have hframe := state.frame_call
  rcases hafter with ⟨hflow, -⟩ | ⟨target, hflow, hafter⟩
  · cases hflow
  · cases hflow
    rw [hafter]
    refine ⟨?_, ?_, hsaves.read_of_lt⟩
    · cases (machine.decode_yields state instruction).ok hdecode with
      | callUser hopcode hstart => exact hstart
    · change after.stack.top + Stack.environmentSize = state.stack.top
      simp only [Stack.environmentSize] at hroom ⊢
      omega

/-- A step that enters a function moves the frame to the top and leaves all cells alone. -/
theorem step_enter {name : String} {localSize : Nat}
    (hdecodes : machine.DecodesAt state (.enter name localSize))
    (hrunning : (machine.step state).1 = .running) :
    (machine.step state).2.stack.frame = state.stack.top ∧
      ∀ address, (machine.step state).2.stack.read address = state.stack.read address := by
  rcases hdecodes with ⟨instruction, hget, hdecode⟩
  rcases step_running hrunning hget hdecode with ⟨flow, after, hrun, hafter⟩
  rcases Exec.run_bind_ok hrun with ⟨⟨⟩, between, henter, hnext⟩
  cases hnext
  rcases Exec.run_enter_ok henter with ⟨hregisters, -, hread⟩
  rcases hafter with ⟨-, hafter⟩ | ⟨target, hflow, -⟩
  · rw [hafter]
    exact ⟨congrArg Registers.frame hregisters, hread⟩
  · cases hflow

/-! ## Invocations -/

/-- Whether the invocation that executes after `k` steps executes after `m` steps as well: what was
called in between has returned, and it has not. -/
structure Within (machine : Machine) (start : State) (k m : Nat) : Prop where
  le : k ≤ m
  depth_eq : (machine.callsAfter start m).activations.length =
    (machine.callsAfter start k).activations.length
  depth_le : ∀ j, k ≤ j → j ≤ m → (machine.callsAfter start k).activations.length ≤
    (machine.callsAfter start j).activations.length

/-- A step opens one call, closes one, or does neither. -/
theorem activations_callsStep (machine : Machine) (state : State) (calls : CallStack) :
    (machine.callsStep state calls).activations = calls.activations ∨
      (∃ activation, (machine.callsStep state calls).activations =
        activation :: calls.activations) ∨
      (machine.callsStep state calls).activations = calls.activations.tail := by
  unfold callsStep
  split
  · exact .inl rfl
  · split
    · rename_i action hdecode
      cases action with
      | enter name localSize =>
          simp only [CallStack.advance]
          split
          · exact .inr (.inl ⟨_, rfl⟩)
          · exact .inl rfl
      | leave => exact .inr (.inr rfl)
      | _ => exact .inl rfl
    · exact .inl rfl

/-- The calls that were open stay the oldest ones for as long as none of them returns. -/
theorem activations_suffix (hle : k ≤ m)
    (hdepth : ∀ j, k ≤ j → j ≤ m → (machine.callsAfter start k).activations.length ≤
      (machine.callsAfter start j).activations.length) :
    (machine.callsAfter start k).activations <:+ (machine.callsAfter start m).activations := by
  -- A step opens one activation, closes one, or leaves them alone.
  induction m, hle using Nat.le_induction with
  | base => exact List.suffix_refl _
  | succ m hle ih =>
      have hsuffix := ih fun j hk hm => hdepth j hk (hm.trans m.le_succ)
      have hafter := hdepth (m + 1) (hle.trans m.le_succ) le_rfl
      rw [callsAfter] at hafter ⊢
      rcases machine.activations_callsStep (machine.stateAfter start m)
        (machine.callsAfter start m) with hsame | ⟨activation, hopened⟩ | hclosed
      · rwa [hsame]
      · rw [hopened]
        exact hsuffix.trans (List.suffix_cons activation _)
      · rw [hclosed] at hafter ⊢
        cases hlist : (machine.callsAfter start m).activations with
        | nil => rwa [hlist] at hsuffix
        | cons activation rest =>
            rw [hlist] at hsuffix hafter
            rcases List.suffix_cons_iff.1 hsuffix with heq | hrest
            · -- The call that returns would be one of those that stay open.
              rw [heq] at hafter
              exact absurd hafter (Nat.not_succ_le_self _)
            · exact hrest

/-- What has returned leaves the activations as it found them. -/
theorem Within.activations_eq (h : machine.Within start k m) :
    (machine.callsAfter start m).activations = (machine.callsAfter start k).activations :=
  ((activations_suffix h.le h.depth_le).eq_of_length h.depth_eq.symm).symm

/-! ## Disciplined states -/

/-- A state with an instruction that is decoded is not finished. -/
theorem Disciplined.going (hlibrary : machine.library.LeavesStacks)
    (h : machine.Disciplined stackSize state calls) (hdecodes : machine.DecodesAt state action) :
    state.finished = false := by
  rcases hdecodes with ⟨instruction, hget, -⟩
  by_contra hfinished
  cases (h.at_end hlibrary (Bool.not_eq_false _ ▸ hfinished)).symm.trans hget

/-- A step with an instruction that is decoded goes on if it raises no fault. -/
theorem Disciplined.running (hlibrary : machine.library.LeavesStacks)
    (h : machine.Disciplined stackSize state calls) (hsucceeds : machine.SucceedsAt state)
    {instruction : Instruction} (hget : machine.program.code[state.pc]? = some instruction) :
    (machine.step state).1 = .running := by
  rcases step_succeeds_of_end (h.at_end hlibrary) hsucceeds with ⟨-, hend⟩ | ⟨hrunning, -⟩
  · cases hend.symm.trans hget
  · exact hrunning

/-- What is decoded to anything but an entry is executed by the innermost activation, and goes on if
it raises no fault. -/
theorem Disciplined.executes (hlibrary : machine.library.LeavesStacks) (hsize : stackSize ≤ 2 ^ 53)
    (h : machine.Disciplined stackSize state calls) (hdecodes : machine.DecodesAt state action)
    (haction : ∀ name localSize, action ≠ .enter name localSize)
    (hsucceeds : machine.SucceedsAt state) :
    calls.Rests stackSize state ∧ (machine.step state).1 = .running := by
  refine ⟨rests_of_decodesAt (h.describes_of_leavesStacks hlibrary hsize) hdecodes haction, ?_⟩
  rcases hdecodes with ⟨instruction, hget, -⟩
  exact h.running hlibrary hsucceeds hget

/-- What a function of the program finds of the arguments that it was given. -/
structure Finds (machine : Machine) (state : State) (calls : CallStack) (count : Nat) : Prop where
  /-- The formals name their cells. -/
  formals : calls.entering = none → ∀ index : UInt32, index.toNat < count →
    machine.program.operandCell state ⟨.formal, index⟩ = .ok (state.formal index.toNat)
  /-- Reflection answers the count and the same cells. -/
  reflects : machine.Reflects state (.number (Number.ofNat count))
    fun index => if index < count then state.formal index else .nil

/-- What the library function that a step calls finds of its arguments, in the state in which it
starts. -/
def Hands (machine : Machine) (state : State) (name : String) (function : Exec Unit) (count : Nat)
    (argument : Nat → Option Cell) : Prop :=
  ∃ instruction prepared, machine.program.code[state.pc]? = some instruction ∧
    (Exec.callLibrary name function).run (fetched state instruction) =
      (do function; Exec.leave).run prepared ∧
    Exec.actuals.run prepared = .ok count prepared ∧
    ∀ index, (Exec.actual index).run prepared = .ok (argument index) prepared

section

variable (hsize : stackSize ≤ 2 ^ 53) (hdisciplined : machine.Disciplined stackSize state calls)
include hsize hdisciplined

/-- Reflection answers what the open calls say, also between a call and the entry of its function,
where no library function is called. -/
theorem reflects_of_disciplined (hlibrary : machine.library.ExtendsStandard) :
    machine.Reflects state
      (if calls.activations = [] then .nil else .number (Number.ofNat calls.actuals))
      fun index => if index < calls.actuals then state.formal index else .nil := by
  have hdescribes := hdisciplined.describes_of_leavesStacks hlibrary.leavesStacks hsize
  have hreflects {name : String} {function : Exec Unit}
      (hdecodes : machine.DecodesAt state (.callLibrary name function)) :=
    reflects_of_rests hlibrary hsize (rests_of_decodesAt hdescribes hdecodes nofun)
      (hdisciplined.going hlibrary.leavesStacks hdecodes)
  exact ⟨fun function hdecodes => (hreflects hdecodes).totalArguments function hdecodes,
    fun function x index hdecodes => (hreflects hdecodes).argument function x index hdecodes⟩

/-- A function that was entered finds the arguments of its call. -/
theorem finds_of_disciplined (hlibrary : machine.library.ExtendsStandard)
    (hopen : calls.activations ≠ []) : machine.Finds state calls calls.actuals := by
  have hdescribes := hdisciplined.describes_of_leavesStacks hlibrary.leavesStacks hsize
  have hreflects := reflects_of_disciplined hsize hdisciplined hlibrary
  rw [if_neg hopen] at hreflects
  refine ⟨fun hentered index hindex => ?_, hreflects⟩
  have hrests := hdescribes.rests hentered
  have hplace : state.place ⟨.formal, index⟩ = .ok (.slot (state.stack.frame +
      Stack.environmentSize + 1 + index.toNat)) := by
    rw [hrests.frame_eq]
    exact @CallStack.Rests.place_eq _ _ _ hrests ⟨.formal, index⟩ hindex
  have hkind : (⟨.formal, index⟩ : Operand).kind.isPlace = true := rfl
  rw [Program.operandCell, Program.source, if_pos hkind, hplace, State.formal, ← Nat.add_assoc,
    ← Nat.add_assoc]
  rfl

/-- A library function finds the pending arguments, the last one pushed first. -/
theorem hands_of_pends (hlibrary : machine.library.LeavesStacks) (hpends : state.Pends count cells)
    {name : String} {function : Exec Unit}
    (hdecodes : machine.DecodesAt state (.callLibrary name function))
    (hroom : Stack.environmentSize ≤ state.stack.top) :
    machine.Hands state name function count fun index =>
      if index < count then some (cells (count - 1 - index)) else none := by
  have hdescribes := hdisciplined.describes_of_leavesStacks hlibrary hsize
  have hrests := rests_of_decodesAt hdescribes hdecodes nofun
  rcases hdecodes with ⟨instruction, hget, hdecode⟩
  have hfetched : calls.Rests stackSize (fetched state instruction) := hrests.moved _ _ _
  obtain ⟨prepared, hprepare, hwithin, hprepares⟩ := hfetched.exists_prepared hroom name
  have hcount : (calls.call state.pc).actuals = count :=
    hrests.pending_eq.symm.trans hpends.pending_eq
  have haddress := hrests.argument_address state.pc hroom
  refine ⟨instruction, prepared, hget, ?_, ?_, fun index => ?_⟩
  · rw [Exec.callLibrary_eq]
    exact Exec.run_bind_of_ok hprepare
  · rw [← hcount]
    exact hwithin.run_actuals hsize rfl
  · have hactual := hwithin.run_actual hsize rfl index
    refine hactual.trans (congrArg (fun cell => EStateM.Result.ok cell prepared) ?_)
    -- The arguments lie in the frame of the call in the order in which they were pushed, the last
    -- one lowest.
    change (if index < (calls.call state.pc).actuals then
      some (prepared.stack.read
        ((calls.call state.pc).frame + (Stack.environmentSize + 1 + index))) else none) =
      if index < count then some (cells (count - 1 - index)) else none
    rw [hcount]
    split
    · rename_i hindex
      rw [← hpends.read_eq index hindex, ← Nat.add_assoc, ← Nat.add_assoc, haddress]
      exact congrArg some (hprepares.read_of_lt _ (by change state.stack.top < _; omega))
    · rfl

end

/-- A call and the entry of its function make the pending arguments those of a new activation. -/
theorem formals_of_pends (hrests : calls.Rests stackSize state) (hpends : state.Pends count cells)
    {address : Nat} (hdecodes : machine.DecodesAt state (.callUser address))
    (hrunning : (machine.step state).1 = .running) {name : String} {localSize : Nat}
    (henter : machine.DecodesAt (machine.step state).2 (.enter name localSize))
    (hrunning' : (machine.step (machine.step state).2).1 = .running) :
    (machine.callsStep (machine.step state).2 (machine.callsStep state calls)).activations =
        ⟨calls.call state.pc, localSize⟩ :: calls.activations ∧
      ∀ index < count, (machine.step (machine.step state).2).2.formal index =
        cells (count - 1 - index) := by
  obtain ⟨-, htop, hread⟩ := step_callUser hrests hdecodes hrunning
  obtain ⟨hframe, hread'⟩ := step_enter henter hrunning'
  refine ⟨?_, fun index hindex => ?_⟩
  · rcases hdecodes with ⟨instruction, hget, hdecode⟩
    rcases henter with ⟨instruction', hget', hdecode'⟩
    rw [callsStep_of_decode hget hdecode, callsStep_of_decode hget' hdecode']
    rfl
  · rw [State.formal, hframe, hread', ← hpends.read_eq index hindex, ← Nat.add_assoc,
      ← Nat.add_assoc, htop]
    exact hread _ (by omega)

/-! ## Runs -/

structure Pushes (machine : Machine) (start : State) (k count : Nat) (cells : Nat → Cell) :
    Prop where
  none_pending : (machine.stateAfter start k).pending = 0
  pushes : ∀ index < count,
    machine.DecodesAt (machine.stateAfter start (k + index)) (.push (cells index))

/-- What the first states of a run say of the arguments that are passed in them. -/
structure PassesArguments (machine : Machine) (start : State) (n : Nat) : Prop where
  /-- A library function finds what was pushed for it, the last cell first, if there is room to
  call it. -/
  library : ∀ k count cells name function, machine.Pushes start k count cells → k + count ≤ n →
    machine.DecodesAt (machine.stateAfter start (k + count)) (.callLibrary name function) →
    Stack.environmentSize ≤ (machine.stateAfter start (k + count)).stack.top →
    machine.Hands (machine.stateAfter start (k + count)) name function count fun index =>
      if index < count then some (cells (count - 1 - index)) else none
  /-- A function of the program finds it in its formals, the last cell first, and whenever it
  executes, its formals and reflection agree. -/
  user : ∀ k count cells address, machine.Pushes start k count cells → k + count + 2 ≤ n →
    machine.DecodesAt (machine.stateAfter start (k + count)) (.callUser address) →
    (∀ index < count, (machine.stateAfter start (k + count + 2)).formal index =
      cells (count - 1 - index)) ∧
    ∀ m ≤ n, machine.Within start (k + count + 2) m →
      machine.Finds (machine.stateAfter start m) (machine.callsAfter start m) count
  /-- Outside of all functions reflection answers nothing. -/
  outermost : ∀ m ≤ n, (machine.callsAfter start m).activations = [] →
    machine.Reflects (machine.stateAfter start m) .nil fun _ => .nil

section

variable (hlibrary : machine.library.LeavesStacks) (hsize : stackSize ≤ 2 ^ 53)
  (hstart : machine.start stackSize console log = .ok start)
  (hsucceeds : machine.Succeeds start n) (hrespects : machine.Respects start n)
include hlibrary hsize hstart hsucceeds hrespects

/-- What was pushed is pending. -/
theorem pends_stateAfter (hpushes : machine.Pushes start k count cells) (hle : k + count ≤ n) :
    (machine.stateAfter start (k + count)).Pends count cells := by
  induction count with
  | zero => exact ⟨hpushes.none_pending, nofun⟩
  | succ count ih =>
      have hbefore := ih ⟨hpushes.none_pending, fun index hindex =>
        hpushes.pushes index (hindex.trans count.lt_succ_self)⟩ (by omega)
      have hdecodes := hpushes.pushes count count.lt_succ_self
      have hdisciplined := disciplined_of_le hlibrary hstart hsucceeds hrespects
        (show k + count ≤ n by omega)
      obtain ⟨hrests, hrunning⟩ := hdisciplined.executes hlibrary hsize hdecodes nofun
        (hsucceeds (k + count) (by omega))
      exact step_pends hrests hdecodes hrunning hbefore

/-- What was pushed is found in the formals of the function that is called. -/
theorem formals_stateAfter (hpushes : machine.Pushes start k count cells)
    (hle : k + count + 2 ≤ n) {address : Nat}
    (hdecodes : machine.DecodesAt (machine.stateAfter start (k + count)) (.callUser address)) :
    (machine.callsAfter start (k + count + 2)).activations ≠ [] ∧
      (machine.callsAfter start (k + count + 2)).actuals = count ∧
      ∀ index < count, (machine.stateAfter start (k + count + 2)).formal index =
        cells (count - 1 - index) := by
  have hpends := pends_stateAfter hlibrary hsize hstart hsucceeds hrespects hpushes (by omega)
  have hdisciplined := disciplined_of_le hlibrary hstart hsucceeds hrespects
    (show k + count ≤ n by omega)
  obtain ⟨hrests, hrunning⟩ := hdisciplined.executes hlibrary hsize hdecodes nofun
    (hsucceeds (k + count) (by omega))
  have hcalled := disciplined_of_le hlibrary hstart hsucceeds hrespects
    (show k + count + 1 ≤ n by omega)
  -- The call goes on at an instruction that enters a function.
  obtain ⟨hentry, -, -⟩ := step_callUser hrests hdecodes hrunning
  obtain ⟨entry, hgetEntry, hopcode⟩ := get_of_startsFunction hentry
  have hrunning' := hcalled.running hlibrary (hsucceeds (k + count + 1) (by omega)) hgetEntry
  obtain ⟨entry', action', hgetEntry', hdecode⟩ := exists_decode_of_running hrunning'
  cases hgetEntry.symm.trans hgetEntry'
  obtain ⟨name, localSize, rfl⟩ := machine.decode_enter _ hopcode hdecode
  obtain ⟨hactivations, hformals⟩ := formals_of_pends hrests hpends hdecodes hrunning
    ⟨entry, hgetEntry, hdecode⟩ hrunning'
  have hlist : (machine.callsAfter start (k + count + 2)).activations = _ := hactivations
  refine ⟨by rw [hlist]; exact List.cons_ne_nil _ _, ?_, hformals⟩
  rw [CallStack.actuals, hlist]
  exact hrests.pending_eq.symm.trans hpends.pending_eq

end

/-- Arguments are passed in every disciplined run, and reflection agrees with that. -/
theorem passes_arguments (hlibrary : machine.library.ExtendsStandard) (hsize : stackSize ≤ 2 ^ 53)
    (hstart : machine.start stackSize console log = .ok start)
    (hsucceeds : machine.Succeeds start n) (hrespects : machine.Respects start n) :
    machine.PassesArguments start n where
  library k count cells name function hpushes hle hdecodes hroom := by
    have hdisciplined := disciplined_of_le hlibrary.leavesStacks hstart hsucceeds hrespects hle
    have hpends := pends_stateAfter hlibrary.leavesStacks hsize hstart hsucceeds hrespects hpushes
      hle
    exact hands_of_pends hsize hdisciplined hlibrary.leavesStacks hpends hdecodes hroom
  user k count cells address hpushes hle hdecodes := by
    obtain ⟨hopen, hcount, hformals⟩ := formals_stateAfter hlibrary.leavesStacks hsize hstart
      hsucceeds hrespects hpushes hle hdecodes
    refine ⟨hformals, fun m hm hwithin => ?_⟩
    have hdisciplined := disciplined_of_le hlibrary.leavesStacks hstart hsucceeds hrespects hm
    -- Inside of the invocation the activations are those that its call has opened.
    have hsame := hwithin.activations_eq
    have hactuals : (machine.callsAfter start m).actuals = count := by
      rw [CallStack.actuals, hsame]
      exact hcount
    exact hactuals ▸ finds_of_disciplined hsize hdisciplined hlibrary (hsame ▸ hopen)
  outermost m hm houtermost := by
    have hdisciplined := disciplined_of_le hlibrary.leavesStacks hstart hsucceeds hrespects hm
    have hreflects := reflects_of_disciplined hsize hdisciplined hlibrary
    have hactuals : (machine.callsAfter start m).actuals = 0 := by
      rw [CallStack.actuals, houtermost]
    rw [if_pos houtermost, hactuals] at hreflects
    simpa only [Nat.not_lt_zero, if_false] using hreflects

def echo : Exec Unit := do
  match ← Exec.actual 0 with
  | some cell => Exec.setResult cell
  | none => return

theorem echo_leavesStack : echo.LeavesStack := by
  intro start after hrun
  rcases Exec.run_bind_ok hrun with ⟨cell?, between, hactual, hanswer⟩
  cases (Exec.run_decide_ok hactual).2
  cases cell? with
  | some cell =>
      cases hanswer
      exact ⟨rfl, State.registers_overwrite _ _ _⟩
  | none =>
      cases hanswer
      exact ⟨rfl, rfl⟩

/-- A machine that passes two cells to a function, which overwrites its second formal, calls a
function of its own, and then asks for both. -/
def relay : Machine where
  program := {
    numbers := #[Number.ofNat 1]
    userFunctions := #[⟨3, 0, "f"⟩, ⟨11, 1, "g"⟩]
    libraryFunctions := #["totalarguments", "argument", "echo"]
    code := #[⟨.pushArgument, .absent, ⟨.bool, 1⟩, .absent, 1⟩,
      ⟨.pushArgument, .absent, .nil, .absent, 1⟩,
      ⟨.call, .absent, ⟨.userFunction, 0⟩, .absent, 1⟩,
      ⟨.enter, .absent, ⟨.userFunction, 0⟩, .absent, 2⟩,
      ⟨.assign, ⟨.formal, 1⟩, ⟨.bool, 0⟩, .absent, 3⟩,
      ⟨.pushArgument, .absent, .nil, .absent, 4⟩,
      ⟨.call, .absent, ⟨.libraryFunction, 2⟩, .absent, 4⟩,
      ⟨.call, .absent, ⟨.userFunction, 1⟩, .absent, 5⟩,
      ⟨.call, .absent, ⟨.libraryFunction, 0⟩, .absent, 6⟩,
      ⟨.pushArgument, .absent, ⟨.number, 0⟩, .absent, 7⟩,
      ⟨.call, .absent, ⟨.libraryFunction, 1⟩, .absent, 7⟩,
      ⟨.enter, .absent, ⟨.userFunction, 1⟩, .absent, 8⟩,
      ⟨.leave, .absent, .absent, .absent, 9⟩] }
  library := .register .standard "echo" echo

def relayStart : State := { stack := ⟨Array.replicate 32 .undefined, 31, 31, 0⟩ }

/-- After the call of its own that the function makes has returned, reflection answers two arguments
and the formal that was overwritten. -/
theorem passes_arguments_relay :
    relay.library.ExtendsStandard ∧ relay.start 32 {} {} = .ok relayStart ∧
      relay.Succeeds relayStart 12 ∧ relay.Respects relayStart 12 ∧
      relay.PassesArguments relayStart 12 ∧
      relay.Answers (relay.stateAfter relayStart 10) (.number (Number.ofNat 2)) ∧
      relay.Answers (relay.stateAfter relayStart 12) (.bool false) := by
  have hlibrary : relay.library.ExtendsStandard :=
    Library.standard_extendsStandard.register rfl echo_leavesStack
  have hsucceeds : relay.Succeeds relayStart 12 := by decide +kernel
  have hrespects : relay.Respects relayStart 12 := by decide +kernel
  have hstart : relay.start 32 {} {} = .ok relayStart := rfl
  have hpasses := passes_arguments hlibrary (by decide) hstart hsucceeds hrespects
  have hpushes : relay.Pushes relayStart 0 2
      fun index => if index = 0 then .bool true else .nil := by
    refine ⟨rfl, fun index hindex => ?_⟩
    interval_cases index
    · exact ⟨_, rfl, rfl⟩
    · exact ⟨_, rfl, rfl⟩
  have huser := hpasses.user 0 2 _ 3 hpushes (by decide) ⟨_, rfl, rfl⟩
  have hdepths : ∀ m ≤ 12, 4 ≤ m → 1 ≤ (relay.callsAfter relayStart m).activations.length := by
    decide +kernel
  have hwithin (m : Nat) (hfirst : 4 ≤ m) (hlast : m ≤ 12)
      (hdepth : (relay.callsAfter relayStart m).activations.length = 1) :
      relay.Within relayStart 4 m :=
    ⟨hfirst, hdepth, fun j hj hm => hdepths j (hm.trans hlast) hj⟩
  -- What the two functions are called by does not depend on the state.
  have hcount (state : State) (hpc : state.pc = 8) :
      relay.DecodesAt state (.callLibrary "totalarguments" totalArguments) :=
    ⟨_, by rw [hpc]; rfl, rfl⟩
  have hargument (state : State) (hpc : state.pc = 10) :
      relay.DecodesAt state (.callLibrary "argument" argument) :=
    ⟨_, by rw [hpc]; rfl, rfl⟩
  refine ⟨hlibrary, hstart, hsucceeds, hrespects, hpasses, ?_, ?_⟩
  · have hfinds := huser.2 10 (by decide) (hwithin 10 (by decide) (by decide) (by decide +kernel))
    exact hfinds.reflects.totalArguments _ (hcount _ (by decide +kernel)) (by decide +kernel)
  · have hfinds := huser.2 12 le_rfl (hwithin 12 (by decide) le_rfl (by decide +kernel))
    have hformal : (relay.stateAfter relayStart 12).formal 1 = .bool false := by decide +kernel
    rw [← hformal]
    exact hfinds.reflects.argument _ (Number.ofNat 1) 1 (hargument _ (by decide +kernel))
      (by decide +kernel) (by decide +kernel) (by decide +kernel) (index?_ofNat (by decide))

end Machine
end CellMachine
