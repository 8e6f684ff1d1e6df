import Mathlib
import CellMachine.Proofs.Machine.Alignment
import CellMachine.Proofs.Machine.Trajectory

/-!
# Stacks of different sizes

A machine with a larger stack runs a disciplined program in the same way: its cells lie higher up,
and no instruction and no library function can see that.  The two runs go through aligned states for
as long as the one with the smaller stack raises no fault, and then raise the same fault, unless the
smaller stack is exhausted: `Machine.independent_of_size`.
-/

namespace CellMachine

open Activation

namespace CallStack
namespace Aligned

variable {calls : CallStack} {size shift : Nat} {state state' : State}

/-! ## Leaving -/

/-- Leaving a function goes on at the same place in the code, and restores the same caller some
cells higher up. -/
theorem leave_mirrors (hsize : size + shift ≤ 2 ^ 53) {activation : Activation}
    {rest : List Activation} (hlist : calls.activations = activation :: rest) :
    Exec.Mirrors (calls.Aligned size shift) Exec.leave Exec.leave fun target target' after after' =>
      target = target' ∧
        after.Shifted shift (CallStack.SavesAddressAt { calls with activations := rest })
          after' := by
  have hlist' : (calls.shift shift).activations =
      activation.shift shift :: rest.map (Activation.shift shift) :=
    congrArg (List.map (Activation.shift shift)) hlist
  rcases Number.exists_toWord?_ofNat (activation.callPc + 1) with ⟨target, htarget⟩
  refine Exec.Mirrors.bind (fun environment environment' state state' =>
    environment = ⟨activation.callerBase, activation.callerFrame, target⟩ ∧
      environment' = environment.shift shift ∧ calls.Aligned size shift state state') ?_ ?_
  · refine Exec.Mirrors.decide fun state state' h => ?_
    rw [h.rests.environment_eq ((Nat.le_add_right _ _).trans hsize) hlist htarget]
    exact ⟨_, h.rests'.environment_eq hsize hlist' htarget, rfl, rfl, h⟩
  · rintro _ _ state state' ⟨rfl, rfl, h⟩
    refine ⟨_, _, rfl, rfl, (Exec.restore_shifted h.shifted _).mono ?_⟩
    have hmem : activation ∈ calls.activations := hlist ▸ List.mem_cons_self ..
    have hadd := (h.rests.nested.caller_bounds hmem).1
    have htop : state.stack.top ≤ activation.frame := by
      have hbase := h.rests.top_eq
      rw [base, hlist, baseOf, Activation.base] at hbase
      omega
    -- The addresses that the call has saved lie below the base of its caller, and are cleared.
    rintro address ⟨⟨call, hcall, haddress⟩, hkept⟩
    refine ⟨call, ?_, haddress⟩
    rw [saved, hlist, h.rests.entering_eq] at hcall
    rw [saved, h.rests.entering_eq]
    refine (List.mem_cons.1 hcall).resolve_left ?_
    rintro rfl
    refine hkept ?_
    rcases haddress with rfl | rfl
    all_goals
      simp only [EnvironmentWord.offset]
      omega

/-! ## Calls -/

/-- A call saves the addresses of its caller in both states. -/
theorem saveEnvironment_mirrors {pc : Nat} :
    Exec.Mirrors (fun state state' => calls.Aligned size shift state state' ∧ state.pc = pc)
      Exec.saveEnvironment Exec.saveEnvironment
      fun _ _ after after' =>
        (calls.called pc).Enters size after (calls.call pc) ∧
          ((calls.called pc).shift shift).Enters (size + shift) after'
            ((calls.call pc).shift shift) ∧
          after.Shifted shift (calls.called pc).SavesAddressAt after' := by
  have hmirrors : Exec.Mirrors
      (fun state state' => calls.Aligned size shift state state' ∧ state.pc = pc)
      Exec.saveEnvironment Exec.saveEnvironment _ :=
    (@Exec.saveEnvironment_mirrors shift calls.SavesAddressAt (calls.base - calls.pushed)).mono
      (fun state state' h => ⟨h.1.shifted, by
        rw [← h.1.rests.top_eq, ← h.1.rests.pending_eq, Nat.add_sub_cancel]⟩) fun _ _ _ _ h => h
  refine hmirrors.of_runs ?_
  rintro state state' ⟨⟩ ⟨⟩ after after' ⟨h, rfl⟩ hrun hrun' ⟨hshifted, htop⟩
  have henters := h.rests.callUser hrun
  have henters' := h.rests'.callUser hrun'
  rw [h.shifted.pc_eq, h.call_shift] at henters'
  refine ⟨henters, henters', hshifted.mono ?_⟩
  have hframe := henters.top_eq
  -- What a call saves besides addresses is the same in both states.
  rintro address (⟨call, hmem, haddress⟩ | haddress | haddress)
  · rw [saved, h.rests.entering_eq] at hmem
    exact ⟨call, List.mem_cons_of_mem _ hmem, haddress⟩
  · refine ⟨calls.call state.pc, List.mem_cons_self .., .inr ?_⟩
    rw [EnvironmentWord.offset]
    omega
  · refine ⟨calls.call state.pc, List.mem_cons_self .., .inl ?_⟩
    rw [EnvironmentWord.offset]
    omega

/-- A call of a standard function gives the same answer in both states. -/
theorem callLibrary_mirrors (hsize : size + shift ≤ 2 ^ 53) (hentering : calls.entering = none)
    {name : String} {function : Exec Unit} (hfind : Library.standard.find? name = some function)
    {pc : Nat} :
    Exec.Mirrors (fun state state' => calls.Aligned size shift state state' ∧ state.pc = pc)
      (Exec.callLibrary name function) (Exec.callLibrary name function)
      fun target target' after after' =>
        target = target' ∧ after.Shifted shift calls.SavesAddressAt after' := by
  have hlist : (calls.within pc).activations = ⟨calls.call pc, 0⟩ :: calls.activations := rfl
  have hlinked := @linked (calls.within pc) size shift hsize _ _ hlist
  refine Exec.Mirrors.bind
    (fun _ _ state state' => calls.Aligned size shift state state' ∧ state.pc = pc)
    (Exec.Mirrors.modify fun state state' h => ⟨h.1.report _ _, h.2⟩) fun _ _ => ?_
  refine Exec.Mirrors.bind _ saveEnvironment_mirrors fun _ _ => ?_
  refine Exec.Mirrors.bind (fun _ _ => (calls.within pc).Aligned size shift)
    (Exec.Mirrors.modify ?_) fun _ _ => ?_
  · rintro state state' ⟨henters, henters', hshifted⟩
    refine ⟨henters.opened rfl (Nat.zero_le _) fun _ => rfl,
      henters'.opened rfl (Nat.zero_le _) fun _ => rfl, ?_⟩
    exact hshifted.moveFrame
  -- In its own frame the function finds the same arguments in both states.
  refine Exec.Mirrors.bind _ (Library.Standard.setResult_lockstep hlinked .nil) fun _ _ => ?_
  refine Exec.Mirrors.bind _ ((Library.standard_lockstep hlinked hfind).mono (fun _ _ h => h.2)
    fun _ _ _ _ h => h) fun _ _ => ?_
  refine (leave_mirrors hsize hlist).mono (fun _ _ h => h.2) ?_
  rintro target target' after after' ⟨heq, hshifted⟩
  refine ⟨heq, hshifted.mono ?_⟩
  rintro address ⟨call, hmem, haddress⟩
  refine ⟨call, ?_, haddress⟩
  rw [saved, hentering]
  exact hmem

/-! ## Actions -/

variable {machine : Machine} {instruction : Instruction} {action : Action}

/-- How an action changes the open calls does not depend on where they lie. -/
theorem advance_shift (h : calls.Aligned size shift state state') (pc : Nat) (action : Action) :
    (calls.shift shift).advance pc (action.shift shift) =
      (calls.advance pc action).shift shift := by
  cases action with
  | callUser address =>
      simp only [Action.shift, advance, h.call_shift]
      rfl
  | enter name localSize =>
      simp only [Action.shift, advance, h.rests.entering_eq, h.rests'.entering_eq]
  | leave =>
      simp only [Action.shift, advance, CallStack.shift, List.map_tail]
  | _ => rfl

/-- An action that respects the open calls does the same in both states. -/
theorem perform_mirrors (hsize : size + shift ≤ 2 ^ 53) (hlibrary : machine.library = .standard)
    (hentering : calls.entering = none) {globals : Nat}
    (hallows : calls.Allows globals instruction) {start : State}
    (hdecoded : machine.Decoded start instruction action) {pc : Nat} :
    Exec.Mirrors (fun state state' => calls.Aligned size shift state state' ∧ state.pc = pc)
      (Exec.perform action) (Exec.perform (action.shift shift))
      fun flow flow' after after' =>
        flow = flow' ∧ after.Shifted shift (calls.advance pc action).SavesAddressAt after' := by
  -- One case for each action: what it writes and reads lies so many cells higher up.
  cases hdecoded with
  | skip => exact Exec.Mirrors.pure fun _ _ h => ⟨rfl, h.1.shifted⟩
  | jump => exact Exec.Mirrors.pure fun _ _ h => ⟨rfl, h.1.shifted⟩
  | store =>
      exact Exec.Mirrors.bind _ (Exec.Mirrors.modify fun _ _ h => h.1.shifted.overwrite _ _)
        fun _ _ => Exec.Mirrors.pure fun _ _ h => ⟨rfl, h⟩
  | copy =>
      exact Exec.Mirrors.bind _ (Exec.Mirrors.modify fun _ _ h => h.1.shifted.assign _ _)
        fun _ _ => Exec.Mirrors.pure fun _ _ h => ⟨rfl, h⟩
  | @create place =>
      refine Exec.Mirrors.bind (fun _ _ => State.Shifted shift calls.SavesAddressAt)
        (Exec.Mirrors.modify fun state state' h => ?_)
        fun _ _ => Exec.Mirrors.pure fun _ _ h => ⟨rfl, h⟩
      have hcreated := h.1.shifted.createTable []
      change State.Shifted shift _
        ((state.createTable []).2.overwrite place (.table (state.createTable []).1))
        ((state'.createTable []).2.overwrite (place.shift shift)
          (.table (state'.createTable []).1))
      rw [hcreated.1]
      exact hcreated.2.overwrite place _
  | insert =>
      exact Exec.Mirrors.bind _ (Exec.Mirrors.modify fun _ _ h => h.1.shifted.insertEntry _ _ _)
        fun _ _ => Exec.Mirrors.pure fun _ _ h => ⟨rfl, h⟩
  | push =>
      refine Exec.Mirrors.bind _ ((Exec.pushArgument_mirrors _).mono (fun _ _ h => h.1.shifted)
        fun _ _ _ _ h => h) fun _ _ => Exec.Mirrors.pure fun _ _ h => ⟨rfl, h⟩
  | callUser =>
      refine Exec.Mirrors.bind (fun _ _ => State.Shifted shift (calls.called pc).SavesAddressAt) ?_
        fun _ _ => Exec.Mirrors.pure fun _ _ h => ⟨rfl, h⟩
      refine Exec.Mirrors.bind
        (fun _ _ state state' => calls.Aligned size shift state state' ∧ state.pc = pc)
        (Exec.Mirrors.modify fun _ _ h => ⟨h.1.report _ _, h.2⟩) fun _ _ => ?_
      exact saveEnvironment_mirrors.mono (fun _ _ h => h) fun _ _ _ _ h => h.2.2
  | callLibrary hopcode hfind =>
      refine Exec.Mirrors.bind _ (callLibrary_mirrors hsize hentering (hlibrary ▸ hfind)) ?_
      rintro target _
      exact Exec.Mirrors.pure fun _ _ h => ⟨congrArg Flow.jump h.1, h.2⟩
  | enter name localSize hopcode => exact absurd hentering (hallows.enter hopcode)
  | leave hopcode =>
      rcases List.exists_cons_of_ne_nil (hallows.leave hopcode).1 with ⟨activation, rest, hlist⟩
      refine Exec.Mirrors.bind _ ((leave_mirrors hsize hlist).mono (fun _ _ h => h.1)
        fun _ _ _ _ h => h) fun target target' => Exec.Mirrors.pure fun _ _ h => ?_
      refine ⟨congrArg Flow.jump h.1, ?_⟩
      rw [advance, hlist]
      exact h.2

end Aligned

/-- The saved calls of shifted calls are the shifted ones. -/
theorem saved_shift (calls : CallStack) (shift : Nat) :
    (calls.shift shift).saved = calls.saved.map (Call.shift shift) := by
  rcases calls with ⟨outermost, activations, entering, pushed⟩
  cases entering <;> simp [saved, CallStack.shift, Function.comp_def, Activation.shift]

/-- The addresses that open calls have saved are read back. -/
theorem Describes.saved_words {calls : CallStack} {machine : Machine} {size : Nat} {state : State}
    (h : calls.Describes machine size state) (hsize : size ≤ 2 ^ 53) {call : Call}
    (hmem : call ∈ calls.saved) {word : EnvironmentWord} (hword : word = .frame ∨ word = .top) :
    call.frame + 4 + call.actuals = call.callerBase ∧
      state.stack.word call.frame word.offset = .ok (call.word word) := by
  have hlaid : LaidOut calls.outermost calls.activations size state := by
    rcases h.pointers with hrests | ⟨made, henters, -⟩
    · exact hrests.toLaidOut
    · exact henters.toLaidOut
  obtain ⟨hheld, hadd, hbase, hframe⟩ : call.HeldBy state.stack ∧
      call.frame + 4 + call.actuals = call.callerBase ∧ call.callerBase ≤ calls.outermost ∧
        call.callerFrame ≤ calls.outermost := by
    -- The call waits for its entry, or its function was entered.
    rcases List.mem_append.1 hmem with hentering | hopen
    · rcases h.pointers with hrests | ⟨made, henters, -⟩
      · rw [hrests.entering_eq] at hentering
        cases hentering
      · rw [henters.entering_eq] at hentering
        cases List.mem_singleton.1 hentering
        have hbounds := hlaid.nested.isWord_bounds
        refine ⟨henters.call_held, ?_, ?_, ?_⟩
        · exact henters.made.frame_add.trans henters.made.base_eq.symm
        · exact henters.made.base_eq.trans_le hbounds.2.1
        · exact henters.made.frame_eq.trans_le hbounds.1
    · rcases List.mem_map.1 hopen with ⟨activation, hactivation, rfl⟩
      exact ⟨hlaid.held activation hactivation, hlaid.nested.caller_bounds hactivation⟩
  have hsizeEq := hlaid.size_eq
  have houtermost := hlaid.outermost_eq
  refine ⟨hadd, hheld.word_eq (hsizeEq ▸ hsize) (by omega) word ?_⟩
  rcases hword with rfl | rfl
  · exact hframe.trans (by omega)
  · exact hbase.trans (by omega)

/-- Calls that lie some cells higher up allow the same instructions. -/
theorem Allows.shift {calls : CallStack} {globals : Nat} {instruction : Instruction}
    (h : calls.Allows globals instruction) (shift : Nat) :
    (calls.shift shift).Allows globals instruction where
  operands hentering operand hmem :=
    Aligned.inRange_shift.2 (h.operands (Option.map_eq_none_iff.1 hentering) operand hmem)
  enter hopcode hentering := h.enter hopcode (Option.map_eq_none_iff.1 hentering)
  leave hopcode :=
    ⟨fun hlist => (h.leave hopcode).1 (List.map_eq_nil_iff.1 hlist), (h.leave hopcode).2⟩

end CallStack

/-! ## Steps -/

namespace Machine

/-- Two disciplined runs have come to states that differ by the place of their cells only. -/
structure Mirrored (machine : Machine) (size shift : Nat) (calls : CallStack)
    (state state' : State) : Prop where
  disciplined : machine.Disciplined size state calls
  disciplined' : machine.Disciplined (size + shift) state' (calls.shift shift)
  shifted : state.Shifted shift calls.SavesAddressAt state'

/-- Whether a step has the same outcome as another one, in a state that differs by the place of its
cells only.  Of a step that exhausts the stack nothing is said. -/
structure Alike (shift : Nat) (marked : Nat → Prop) (outcome outcome' : Progress × State) :
    Prop where
  progress_eq : (∀ trap, outcome.1 = .trapped trap → trap.fault ≠ .stackOverflow) →
    outcome'.1 = outcome.1
  shifted : (∀ trap, outcome.1 ≠ .trapped trap) →
    outcome.2.Shifted shift marked outcome'.2

/-- Of an exhausted stack nothing is claimed. -/
theorem Alike.trapped {shift : Nat} {marked : Nat → Prop} {trap : Trap} {after : State}
    {outcome' : Progress × State}
    (h : trap.fault ≠ .stackOverflow → outcome'.1 = .trapped trap) :
    Alike shift marked (.trapped trap, after) outcome' :=
  ⟨fun hfault => h (hfault trap rfl), fun hnot => absurd rfl (hnot trap)⟩

/-- What it means that a state has the cells of another one at addresses that are larger by
`shift`. -/
structure Relocated (shift : Nat) (calls : CallStack) (state state' : State) : Prop where
  /-- All cells are the same but those in which open calls have saved addresses, and so is all that
  is not a cell. -/
  shifted : state.Shifted shift calls.SavesAddressAt state'
  /-- The saved frames and tops are those of the same cells. -/
  saved : ∀ call ∈ calls.saved, ∀ word, word = .frame ∨ word = .top →
    state.stack.word call.frame word.offset = .ok (call.word word) ∧
      state'.stack.word (call.frame + shift) word.offset = .ok (call.word word + shift)

namespace Mirrored

variable {machine : Machine} {size shift : Nat} {calls : CallStack} {state state' : State}
  {instruction : Instruction} (hlibrary : machine.library = .standard)
  (hsize : size + shift ≤ 2 ^ 53)
include hlibrary hsize

/-- Either an activation executes in both states, or the same call waits for its function in both of
them. -/
theorem pointers (h : machine.Mirrored size shift calls state state') :
    calls.Aligned size shift state state' ∨
      ∃ call, calls.entering = some call ∧ machine.program.startsFunction state.pc := by
  have hdescribes := h.disciplined.describes hlibrary ((Nat.le_add_right _ _).trans hsize)
  have hdescribes' := h.disciplined'.describes hlibrary hsize
  rcases hdescribes.pointers with hrests | ⟨call, henters, hstart⟩
  · have hentering : (calls.shift shift).entering = none := by
      rw [CallStack.shift, hrests.entering_eq]
      rfl
    exact .inl ⟨hrests, hdescribes'.rests hentering, h.shifted⟩
  · exact .inr ⟨call, henters.entering_eq, hstart⟩

/-- An instruction that respects the open calls is decoded to the same action some cells higher
up. -/
theorem decode_eq (h : machine.Mirrored size shift calls state state')
    (hget : machine.program.code[state.pc]? = some instruction)
    (hallows : calls.Allows machine.program.globals instruction) :
    machine.decode state' instruction =
      Action.shift shift <$> machine.decode state instruction := by
  rcases h.pointers hlibrary hsize with haligned | ⟨call, -, hstart⟩
  · have hdescribes := h.disciplined.describes hlibrary ((Nat.le_add_right _ _).trans hsize)
    have hglobals : state.stack.globals = machine.program.globals := by
      have h₁ := hdescribes.outermost_eq
      have h₂ := haligned.rests.outermost_eq
      omega
    exact haligned.decode_eq machine (hglobals ▸ hallows)
  · -- The instruction enters a function, so it has no operand that names a place.
    have hopcode := opcode_of_startsFunction hget hstart
    rcases instruction with ⟨opcode, result, first, second, line⟩
    cases hopcode
    exact machine.program.enterAction_shift h.shifted.pc_eq first

/-- Shifted calls change as the others do. -/
theorem advance_shift (h : machine.Mirrored size shift calls state state')
    (hget : machine.program.code[state.pc]? = some instruction) {action : Action}
    (hdecode : machine.decode state instruction = .ok action) :
    (calls.shift shift).advance state.pc (action.shift shift) =
      (calls.advance state.pc action).shift shift := by
  rcases h.pointers hlibrary hsize with haligned | ⟨call, hentering, hstart⟩
  · exact haligned.advance_shift state.pc action
  · have hopcode := opcode_of_startsFunction hget hstart
    rcases machine.decode_enter state hopcode hdecode with ⟨name, localSize, rfl⟩
    simp only [Action.shift, CallStack.advance, CallStack.shift, hentering, Option.map_some]
    rfl

/-- An instruction that respects the open calls does the same in both states. -/
theorem execute_mirrors (h : machine.Mirrored size shift calls state state')
    (hget : machine.program.code[state.pc]? = some instruction)
    (hallows : calls.Allows machine.program.globals instruction) :
    Exec.Mirrors
      (fun start start' => start = fetched state instruction ∧ start' = fetched state' instruction)
      (machine.execute instruction) (machine.execute instruction)
      fun flow flow' after after' => flow = flow' ∧
        after.Shifted shift (machine.callsStep state calls).SavesAddressAt after' := by
  have hdecode := h.decode_eq hlibrary hsize hget hallows
  -- Both states decode the instruction to the same action, at places that correspond.
  refine Exec.Mirrors.bind (fun action action' start start' =>
    (machine.decode state instruction = .ok action ∧ action' = action.shift shift) ∧
      start = fetched state instruction ∧ start' = fetched state' instruction)
    (Exec.Mirrors.decide ?_) ?_
  · rintro _ _ ⟨rfl, rfl⟩
    have hfetched : machine.decode (fetched state' instruction) instruction =
        Action.shift shift <$> machine.decode (fetched state instruction) instruction := hdecode
    rw [hfetched]
    cases hdecoded : machine.decode (fetched state instruction) instruction with
    | ok action => exact ⟨action.shift shift, rfl, ⟨hdecoded, rfl⟩, rfl, rfl⟩
    | error fault => exact .inr rfl
  · rintro action _ start start' ⟨⟨hdecoded, rfl⟩, rfl, rfl⟩
    rw [callsStep_of_decode hget hdecoded]
    rcases h.pointers hlibrary hsize with haligned | ⟨call, hentering, hstart⟩
    · have hyields := (machine.decode_yields state instruction).ok hdecoded
      exact CallStack.Aligned.perform_mirrors hsize hlibrary haligned.rests.entering_eq hallows
        hyields _ _ ⟨haligned.report _ _, rfl⟩
    · -- Between a call and its entry, the instruction is that entry.
      have hopcode := opcode_of_startsFunction hget hstart
      rcases machine.decode_enter state hopcode hdecoded with ⟨name, localSize, rfl⟩
      have henters : Exec.Mirrors (State.Shifted shift calls.SavesAddressAt)
          (Exec.perform (.enter name localSize)) (Exec.perform (.enter name localSize))
          fun flow flow' after after' => flow = flow' ∧
            after.Shifted shift calls.SavesAddressAt after' :=
        Exec.Mirrors.bind _ (Exec.enter_mirrors name localSize) fun _ _ =>
          Exec.Mirrors.pure fun _ _ hafter => ⟨rfl, hafter⟩
      have hsaves : (calls.advance state.pc (.enter name localSize)).SavesAddressAt =
          calls.SavesAddressAt := by
        funext address
        simp only [CallStack.SavesAddressAt, CallStack.saved, CallStack.advance, hentering]
        rfl
      rw [hsaves]
      exact henters _ _ (h.shifted.report _ _)

/-- An instruction that respects the open calls moves both states to the same place in the code, or
traps in both. -/
theorem executeStep_alike (h : machine.Mirrored size shift calls state state')
    (hget : machine.program.code[state.pc]? = some instruction)
    (hallows : calls.Allows machine.program.globals instruction) :
    Alike shift (machine.callsStep state calls).SavesAddressAt
      (machine.executeStep instruction (fetched state instruction))
      (machine.executeStep instruction (fetched state' instruction)) := by
  have hmirrors := h.execute_mirrors hlibrary hsize hget hallows
  have hpc : (fetched state' instruction).pc = (fetched state instruction).pc := h.shifted.pc_eq
  rw [executeStep, executeStep, hpc]
  cases hrun : (machine.execute instruction).run (fetched state instruction) with
  | error fault after =>
      -- The other machine raises the fault too, unless it is that the stack is exhausted.
      refine Alike.trapped fun hfault => ?_
      rcases hmirrors.error ⟨rfl, rfl⟩ hrun hfault with ⟨after', hrun'⟩
      rw [hrun']
  | ok flow after =>
      rcases hmirrors.ok ⟨rfl, rfl⟩ hrun with ⟨_, after', hrun', rfl, hshifted⟩
      rw [hrun']
      cases flow with
      | next => exact ⟨fun _ => rfl, fun _ => { hshifted with
          pc_eq := congrArg (· + 1) hshifted.pc_eq }⟩
      | jump target =>
          simp only
          split
          · exact ⟨fun _ => rfl, fun _ => { hshifted with pc_eq := rfl }⟩
          · exact Alike.trapped fun _ => rfl

/-- A step comes out alike in both states. -/
theorem step_alike (h : machine.Mirrored size shift calls state state')
    (hrespects : machine.RespectsAt state calls) :
    Alike shift (machine.callsStep state calls).SavesAddressAt (machine.step state)
      (machine.step state') := by
  have hsound := h.disciplined.reachable.sound hlibrary
  by_cases hfinished : state.finished = true
  · have hend : machine.program.code[state.pc]? = none :=
      Array.getElem?_eq_none (hsound.at_end hfinished).ge
    rw [callsStep_of_end hend, Machine.step, Machine.step, if_pos hfinished,
      if_pos (h.shifted.finished_eq.trans hfinished)]
    exact ⟨fun _ => rfl, fun _ => h.shifted⟩
  have hgoing : state.finished = false := Bool.not_eq_true _ ▸ hfinished
  have hgoing' : state'.finished = false := h.shifted.finished_eq.trans hgoing
  cases hget : machine.program.code[state.pc]? with
  | some instruction =>
      have hget' : machine.program.code[state'.pc]? = some instruction :=
        h.shifted.pc_eq.symm ▸ hget
      rw [step_of_get hgoing hget, step_of_get hgoing' hget']
      exact h.executeStep_alike hlibrary hsize hget (hrespects instruction hget)
  | none =>
      -- The place in the code is not beyond its end, so both machines finish.
      have hend : state.pc = machine.program.code.size :=
        hsound.pc_le.antisymm (Array.getElem?_eq_none_iff.1 hget)
      rw [callsStep_of_end hget, Machine.step, Machine.step, if_neg hfinished, if_pos hend,
        if_neg (by rw [hgoing']; exact Bool.false_ne_true), if_pos (h.shifted.pc_eq.trans hend)]
      exact ⟨fun _ => rfl, fun _ => { h.shifted with finished_eq := rfl }⟩

/-- Steps without a fault keep two runs mirrored. -/
theorem step (h : machine.Mirrored size shift calls state state')
    (hrespects : machine.RespectsAt state calls) (hsucceeds : machine.SucceedsAt state) :
    machine.SucceedsAt state' ∧
      machine.Mirrored size shift (machine.callsStep state calls) (machine.step state).2
        (machine.step state').2 := by
  have halike := h.step_alike hlibrary hsize hrespects
  have hnot (trap : Trap) : (machine.step state).1 ≠ .trapped trap := by
    intro htrap
    rcases hsucceeds with hrunning | hfinished
    · cases htrap.symm.trans hrunning
    · cases htrap.symm.trans hfinished
  -- A step without a fault has not exhausted the stack, so the other machine does the same.
  have hprogress := halike.progress_eq fun trap htrap => absurd htrap (hnot trap)
  have hshifted := halike.shifted hnot
  refine ⟨hsucceeds.imp hprogress.trans hprogress.trans, ?_⟩
  rcases step_succeeds (h.disciplined.reachable.sound hlibrary) hsucceeds with
    ⟨hfinished, hend⟩ | ⟨hrunning, instruction, action, hget, hdecode⟩
  · rw [callsStep_of_end hend] at hshifted ⊢
    exact ⟨.finish h.disciplined hfinished,
      .finish h.disciplined' (hprogress.trans hfinished), hshifted⟩
  · have hallows := hrespects instruction hget
    have hget' : machine.program.code[state'.pc]? = some instruction :=
      h.shifted.pc_eq.symm ▸ hget
    have hdecode' : machine.decode state' instruction = .ok (action.shift shift) := by
      rw [h.decode_eq hlibrary hsize hget hallows, hdecode]
      rfl
    have hafter' := Disciplined.step h.disciplined' hget' (hallows.shift shift) hdecode'
      (hprogress.trans hrunning)
    rw [callsStep_of_decode hget hdecode] at hshifted ⊢
    rw [h.shifted.pc_eq, h.advance_shift hlibrary hsize hget hdecode] at hafter'
    exact ⟨.step h.disciplined hget hallows hdecode hrunning, hafter', hshifted⟩

/-- Mirrored states differ by the place of their cells only. -/
theorem relocated (h : machine.Mirrored size shift calls state state') :
    Relocated shift calls state state' := by
  refine ⟨h.shifted, fun call hmem word hword => ?_⟩
  have hsize' : size ≤ 2 ^ 53 := (Nat.le_add_right _ _).trans hsize
  have hmem' : call.shift shift ∈ (calls.shift shift).saved := by
    rw [CallStack.saved_shift]
    exact List.mem_map_of_mem hmem
  have hwords := (h.disciplined.describes hlibrary hsize').saved_words hsize' hmem hword
  have hwords' := (h.disciplined'.describes hlibrary hsize).saved_words hsize hmem' hword
  have hframe : (call.shift shift).frame = call.frame + shift := by
    have hadd := hwords.1
    have hadd' : _ = call.callerBase + shift := hwords'.1
    have hactuals : (call.shift shift).actuals = call.actuals := rfl
    omega
  have hsaved : (call.shift shift).word word = call.word word + shift := by
    rcases hword with rfl | rfl <;> rfl
  rw [hframe, hsaved] at hwords'
  exact ⟨hwords.2, hwords'.2⟩

end Mirrored

/-! ## Runs -/

variable {machine : Machine} {size size' : Nat} {start start' : State} {console : Console}
  {log : Log}

/-- A machine that starts with a stack starts with a larger one as well. -/
theorem mirrored_start (shift : Nat) (hstart : machine.start size console log = .ok start) :
    ∃ start', machine.start (size + shift) console log = .ok start' ∧
      machine.Mirrored size shift (machine.callsAfter start 0) start start' := by
  have hroom : ¬ (size = 0 ∨ size ≤ machine.program.globals) := by
    intro hnone
    simp only [Machine.start, Stack.create, if_pos hnone] at hstart
    cases hstart
  have hroom' : ¬ (size + shift = 0 ∨ size + shift ≤ machine.program.globals) := by omega
  obtain ⟨start', hstart'⟩ : ∃ start', machine.start (size + shift) console log = .ok start' := by
    simp only [Machine.start, Stack.create, if_neg hroom']
    exact ⟨_, rfl⟩
  have htop : start'.stack.top = start.stack.top + shift := by
    rw [top_of_start hstart, top_of_start hstart']
    omega
  refine ⟨start', hstart', ?_, ?_, ?_⟩
  · rw [callsAfter, top_of_start hstart]
    exact .start hstart
  · have hcalls : (machine.callsAfter start 0).shift shift =
        ⟨size + shift - 1 - machine.program.globals, [], none, 0⟩ := by
      rw [← top_of_start hstart', htop]
      rfl
    rw [hcalls]
    exact .start hstart'
  · have hread (address : Nat) :
        start'.stack.read (address + shift) = start.stack.read address := by
      rw [read_of_start hstart, read_of_start hstart']
    -- All cells are undefined in both states.
    have htable (address : Nat) := congrArg Cell.table? (hread address)
    simp only [Machine.start, Stack.create, if_neg hroom, if_neg hroom'] at hstart hstart'
    cases hstart
    cases hstart'
    refine ⟨⟨?_, rfl, htop, htop, fun address _ => hread address, htable⟩, rfl, rfl, rfl, rfl, rfl,
      rfl⟩
    exact (Array.size_replicate).trans (congrArg (· + shift) Array.size_replicate.symm)

/-- As long as the smaller machine succeeds, the larger one does, in the same states some cells
higher up. -/
theorem mirrored_stateAfter (hlibrary : machine.library = .standard) {shift : Nat}
    (hsize : size + shift ≤ 2 ^ 53)
    (hstart : machine.Mirrored size shift (machine.callsAfter start 0) start start') {n : Nat}
    (hsucceeds : machine.Succeeds start n) (hrespects : machine.Respects start n) :
    machine.Succeeds start' n ∧
      machine.Mirrored size shift (machine.callsAfter start n) (machine.stateAfter start n)
        (machine.stateAfter start' n) := by
  induction n with
  | zero => exact ⟨nofun, hstart⟩
  | succ n ih =>
      rcases ih (hsucceeds.mono n.le_succ) (hrespects.mono n.le_succ) with ⟨hsucceeds', hmirrored⟩
      rcases hmirrored.step hlibrary hsize (hrespects n n.lt_succ_self)
        (hsucceeds n n.lt_succ_self) with ⟨hstep, hnext⟩
      refine ⟨fun m hm => ?_, hnext⟩
      rcases Nat.lt_succ_iff_lt_or_eq.1 hm with hlt | rfl
      · exact hsucceeds' m hlt
      · exact hstep

/-! ## The statement -/

/-- A disciplined run with a larger stack goes on as with the smaller one, in the same states but
for the place of the cells, and traps as the smaller one does unless that one is exhausted. -/
theorem independent_of_size (machine : Machine) (hlibrary : machine.library = .standard)
    (hle : size ≤ size') (hsize : size' ≤ 2 ^ 53)
    (hstart : machine.start size console log = .ok start) :
    ∃ start', machine.start size' console log = .ok start' ∧
      ∀ n, machine.Succeeds start n → machine.Respects start n →
        machine.Succeeds start' n ∧
          (∀ m ≤ n, Relocated (size' - size) (machine.callsAfter start m)
            (machine.stateAfter start m) (machine.stateAfter start' m)) ∧
          (machine.RespectsAt (machine.stateAfter start n) (machine.callsAfter start n) →
            ∀ trap, (machine.step (machine.stateAfter start n)).1 = .trapped trap →
              trap.fault ≠ .stackOverflow →
                (machine.step (machine.stateAfter start' n)).1 = .trapped trap) := by
  obtain ⟨shift, rfl⟩ := Nat.exists_eq_add_of_le hle
  rw [Nat.add_sub_cancel_left]
  rcases mirrored_start shift hstart with ⟨start', hstart', hmirrored⟩
  refine ⟨start', hstart', fun n hsucceeds hrespects => ?_⟩
  -- The larger machine mirrors the smaller one at every step up to the last.
  have hafter (m : Nat) (hm : m ≤ n) := mirrored_stateAfter hlibrary hsize hmirrored
    (hsucceeds.mono hm) (hrespects.mono hm)
  refine ⟨(hafter n le_rfl).1, fun m hm => ?_, fun hnext trap htrap hfault => ?_⟩
  · exact (hafter m hm).2.relocated hlibrary hsize
  · have halike := (hafter n le_rfl).2.step_alike hlibrary hsize hnext
    refine (halike.progress_eq fun other hother => ?_).trans htrap
    cases htrap.symm.trans hother
    exact hfault

def asker : Machine where
  program := {
    numbers := #[Number.ofNat 0]
    strings := #["asked"]
    userFunctions := #[⟨2, 1, "f"⟩]
    libraryFunctions := #["argument"]
    code := #[⟨.pushArgument, .absent, ⟨.string, 0⟩, .absent, 1⟩,
      ⟨.call, .absent, ⟨.userFunction, 0⟩, .absent, 1⟩,
      ⟨.enter, .absent, ⟨.userFunction, 0⟩, .absent, 2⟩,
      ⟨.pushArgument, .absent, ⟨.number, 0⟩, .absent, 3⟩,
      ⟨.call, .absent, ⟨.libraryFunction, 0⟩, .absent, 3⟩,
      ⟨.assign, ⟨.local, 0⟩, .result, .absent, 3⟩,
      ⟨.arithmetic .add, ⟨.local, 0⟩, ⟨.local, 0⟩, ⟨.local, 0⟩, 4⟩] }

/-- The frame of the function lies at ten in the smaller stack and at thirteen in the larger one;
both machines refuse to add the text to itself. -/
theorem independent_of_size_asker :
    ∃ start start', asker.start 16 {} {} = .ok start ∧ asker.start 19 {} {} = .ok start' ∧
      asker.Succeeds start 6 ∧ asker.Respects start 6 ∧ asker.Succeeds start' 6 ∧
      Relocated 3 (asker.callsAfter start 6) (asker.stateAfter start 6)
        (asker.stateAfter start' 6) ∧
      (asker.step (asker.stateAfter start' 6)).1 =
        .trapped ⟨6, 4, .notANumber (.arithmetic .add) .text⟩ := by
  have hstart : asker.start 16 {} {} =
      .ok { stack := ⟨Array.replicate 16 .undefined, 15, 15, 0⟩ } := rfl
  rcases independent_of_size asker rfl (show 16 ≤ 19 by decide)
    (show 19 ≤ 2 ^ 53 by decide) hstart with ⟨start', hstart', hafter⟩
  have hsucceeds : asker.Succeeds { stack := ⟨Array.replicate 16 .undefined, 15, 15, 0⟩ } 6 := by
    decide +kernel
  have hrespects : asker.Respects { stack := ⟨Array.replicate 16 .undefined, 15, 15, 0⟩ } 6 := by
    decide +kernel
  rcases hafter 6 hsucceeds hrespects with ⟨hsucceeds', hrelocated, htrap⟩
  refine ⟨_, start', hstart, hstart', hsucceeds, hrespects, hsucceeds', hrelocated 6 le_rfl, ?_⟩
  exact htrap (by decide +kernel) _ (by decide +kernel) (by decide)

end Machine
end CellMachine
