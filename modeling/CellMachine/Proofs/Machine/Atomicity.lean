import Mathlib
import CellMachine.Proofs.Machine.Room
import CellMachine.Proofs.Machine.Safety

/-!
# Failing steps

An instruction resolves its operands before it changes anything, so most faults leave the machine
as it was.  `Machine.Refused` lists these: decoding fails, a jump leaves the code, or a function is
left whose environment cannot be read back.  A refused instruction is refused again.

What is left are instructions that fail half way, and `Machine.Interrupted` lists those: room is
made on the stack and there is too little, a library function raises a fault in its own frame, or a
restored caller turns out to lie outside of the code.  No step fails in another way:
`Machine.failsAt_of_trapped`.
-/

namespace CellMachine

/-- A function starts in the code. -/
theorem Program.lt_of_startsFunction {program : Program} {address : Nat}
    (h : program.startsFunction address) : address < program.code.size := by
  rw [startsFunction] at h
  split at h
  · rename_i instruction hget
    exact (Array.getElem?_eq_some_iff.1 hget).1
  · cases h

namespace Machine

variable {machine : Machine} {state : State} {instruction : Instruction}

/-- How an instruction fails before it changes anything. -/
inductive Refused (machine : Machine) (state : State) (instruction : Instruction) : Fault → Prop
  /-- It cannot be decoded. -/
  | decoding {fault : Fault} (h : machine.decode state instruction = .error fault) :
      machine.Refused state instruction fault
  /-- It jumps out of the code. -/
  | jump {target : Nat} (h : machine.decode state instruction = .ok (.jump target))
      (hout : machine.program.code.size < target) :
      machine.Refused state instruction (.jumpOutOfRange target)
  /-- It leaves a function whose environment cannot be read back. -/
  | leave {fault : Fault} (h : machine.decode state instruction = .ok .leave)
      (hfault : Exec.environment state.stack = .error fault) :
      machine.Refused state instruction fault

/-- How an instruction fails half way. -/
inductive Interrupted (machine : Machine) (state : State) (instruction : Instruction) :
    Fault → Prop
  /-- There is no room for an argument. -/
  | push (hopcode : instruction.opcode = .pushArgument) :
      machine.Interrupted state instruction .stackOverflow
  /-- There is no room for the locals of a function. -/
  | enter (hopcode : instruction.opcode = .enter) :
      machine.Interrupted state instruction .stackOverflow
  /-- There is no room for the environment of a call. -/
  | save (hopcode : instruction.opcode = .call)
      (hroom : state.stack.top < Stack.environmentSize) :
      machine.Interrupted state instruction .stackOverflow
  /-- A library function raises a fault, after its frame was prepared. -/
  | function {name : String} {function : Exec Unit} {fault : Fault} {prepared after : State}
      (hopcode : instruction.opcode = .call)
      (hdecode : machine.decode state instruction = .ok (.callLibrary name function))
      (hprepare : (Exec.prepare name).run (fetched state instruction) = .ok () prepared)
      (hfunction : function.run prepared = .error fault after) :
      machine.Interrupted state instruction fault
  /-- A function is left for a place that is not in the code. -/
  | leave {target : Nat} (hopcode : instruction.opcode = .leave) :
      machine.Interrupted state instruction (.jumpOutOfRange target)
  /-- A library function is called from so far in the code that no number tells the place to return
  to.  No program that fits in memory is that long. -/
  | far {target : Nat} (hopcode : instruction.opcode = .call) (hfar : 2 ^ 53 < state.pc + 1) :
      machine.Interrupted state instruction (.jumpOutOfRange target)

/-! ## Refused instructions -/

/-- Being reported does not change why an instruction is refused. -/
theorem Refused.fetched {fault : Fault} (h : machine.Refused state instruction fault) :
    machine.Refused (fetched state instruction) instruction fault := by
  cases h with
  | decoding h => exact .decoding h
  | jump h hout => exact .jump h hout
  | leave h hfault => exact .leave h hfault

/-- A refused instruction is reported, and nothing else happens. -/
theorem step_of_refused {fault : Fault} (hgoing : state.finished = false)
    (hget : machine.program.code[state.pc]? = some instruction)
    (h : machine.Refused state instruction fault) :
    machine.step state =
      (.trapped ⟨state.pc, instruction.line, fault⟩, fetched state instruction) := by
  replace h := h.fetched
  cases h with
  | decoding h => exact step_of_error hgoing hget (run_execute_of_error h)
  | jump h hout => exact step_of_astray hgoing hget (run_execute_of_ok h) hout
  | leave h hfault =>
      refine step_of_error hgoing hget ((run_execute_of_ok h).trans ?_)
      have hrun := Exec.run_leave (fetched state instruction)
      rw [hfault] at hrun
      change (Exec.leave >>= fun target => pure (Flow.jump target)).run _ = _
      rw [EStateM.run_bind, hrun]

/-! ## The ways to fail -/

/-- Only pushing an argument takes one cell by itself. -/
theorem opcode_of_push {cell : Cell} (h : machine.decode state instruction = .ok (.push cell)) :
    instruction.opcode = .pushArgument := by
  have hasks := asks_of_decode h Nat.one_ne_zero
  generalize hroom : (Action.push cell).room = room at hasks
  cases hasks with
  | push hopcode => exact hopcode
  | call hopcode => cases hroom
  | enter hopcode =>
      rcases machine.decode_enter state hopcode h with ⟨name, localSize, haction⟩
      cases haction

/-- An action that raises a fault is the leaving of a function, which is refused, or it is
interrupted. -/
theorem perform_error_cases (hlibrary : machine.library.LeavesStacks)
    (hbase : state.stack.top + state.pending < state.stack.size)
    (hframe : state.stack.frame < state.stack.size) (hsize : state.stack.size ≤ 2 ^ 53)
    {action : Action} (hdecode : machine.decode state instruction = .ok action) {fault : Fault}
    {after : State}
    (hrun : (Exec.perform action).run (fetched state instruction) = .error fault after) :
    machine.Refused state instruction fault ∨ machine.Interrupted state instruction fault := by
  have hdecoded := (machine.decode_yields state instruction).ok hdecode
  cases hdecoded with
  -- Actions that neither push nor enter, call or leave cannot fail.
  | skip | jump | store | copy | create | insert => cases hrun
  | push =>
      have hfault := ((Exec.pushArgument_takes _).raises.bind fun _ =>
        Exec.Raises.pure _).error hrun
      exact .inr (hfault ▸ .push (opcode_of_push hdecode))
  | enter name localSize hopcode =>
      have hfault := ((Exec.enter_takes _ _).raises.bind fun _ => Exec.Raises.pure _).error hrun
      exact .inr (hfault ▸ .enter hopcode)
  | @callUser address hopcode hstart =>
      rcases Exec.run_bind_error hrun with hcall | ⟨⟨⟩, between, -, hjump⟩
      · have htakes := Exec.callUser_takes address
        cases htakes.raises.error hcall
        have hroom := (htakes.overflows_iff (fetched state instruction)).1 ⟨after, hcall⟩
        exact .inr (.save hopcode hroom)
      · cases hjump
  | @callLibrary name function hopcode hfind =>
      rcases Exec.run_bind_error hrun with hcall | ⟨target, between, -, hjump⟩
      · have hsplit := hcall
        rw [Exec.callLibrary_eq] at hsplit
        rcases Exec.run_bind_error hsplit with hprepare | ⟨⟨⟩, prepared, hprepare, hrest⟩
        · have htakes := Exec.prepare_takes name
          cases htakes.raises.error hprepare
          have hroom := (htakes.overflows_iff (fetched state instruction)).1 ⟨after, hprepare⟩
          exact .inr (.save hopcode hroom)
        rcases Exec.run_bind_error hrest with hfunction | ⟨⟨⟩, answered, hanswer, -⟩
        · exact .inr (.function hopcode hdecode hprepare hfunction)
        · -- After the function has answered, nothing can fail any more.
          obtain ⟨target, htarget⟩ := Number.exists_toWord?_ofNat (state.pc + 1)
          have hok := Exec.run_callLibrary (hlibrary name function hfind) hprepare hanswer
            hsize hframe hbase htarget
          cases hcall.symm.trans hok
      · cases hjump
  | leave hopcode =>
      rcases Exec.run_bind_error hrun with hleave | ⟨target, between, -, hjump⟩
      · rw [Exec.run_leave] at hleave
        cases henvironment : Exec.environment (Machine.fetched state instruction).stack with
        | ok environment =>
            rw [henvironment] at hleave
            cases hleave
        | error fault' =>
            rw [henvironment] at hleave
            cases hleave
            exact .inl (.leave hdecode henvironment)
      · cases hjump

/-- An action that goes on outside of the code is a jump, which is refused, or it is interrupted. -/
theorem perform_astray_cases (hlibrary : machine.library.LeavesStacks)
    (hbase : state.stack.top + state.pending < state.stack.size)
    (hframe : state.stack.frame < state.stack.size) (hsize : state.stack.size ≤ 2 ^ 53)
    (hpc : state.pc < machine.program.code.size) {action : Action}
    (hdecode : machine.decode state instruction = .ok action) {target : Nat} {after : State}
    (hrun : (Exec.perform action).run (fetched state instruction) = .ok (.jump target) after)
    (hout : machine.program.code.size < target) :
    machine.Refused state instruction (.jumpOutOfRange target) ∨
      machine.Interrupted state instruction (.jumpOutOfRange target) := by
  have hdecoded := (machine.decode_yields state instruction).ok hdecode
  cases hdecoded with
  | skip | store | copy | create | insert => cases hrun
  | push | enter =>
      rcases Exec.run_bind_ok hrun with ⟨⟨⟩, between, -, hnext⟩
      cases hnext
  | jump target' =>
      cases hrun
      exact .inl (.jump hdecode hout)
  | callUser hopcode hstart =>
      rcases Exec.run_bind_ok hrun with ⟨⟨⟩, between, -, hjump⟩
      cases hjump
      exact absurd (Program.lt_of_startsFunction hstart) (Nat.not_lt_of_lt hout)
  | @callLibrary name function hopcode hfind =>
      rcases Exec.run_bind_ok hrun with ⟨returned, between, hcall, hjump⟩
      cases hjump
      have hsplit := hcall
      rw [Exec.callLibrary_eq] at hsplit
      rcases Exec.run_bind_ok hsplit with ⟨⟨⟩, prepared, hprepare, hrest⟩
      rcases Exec.run_bind_ok hrest with ⟨⟨⟩, answered, hanswer, -⟩
      obtain ⟨word, hword⟩ := Number.exists_toWord?_ofNat (state.pc + 1)
      cases hcall.symm.trans (Exec.run_callLibrary (hlibrary name function hfind) hprepare hanswer
        hsize hframe hbase hword)
      -- The place to return to is read back exactly, unless it is beyond all numbers that are.
      rcases Nat.lt_or_ge (2 ^ 53) (state.pc + 1) with hfar | hnear
      · exact .inr (.far hopcode hfar)
      · cases hword.symm.trans (Number.toWord?_ofNat hnear)
        exact absurd hout (Nat.not_lt_of_le hpc)
  | leave hopcode => exact .inr (.leave hopcode)

/-! ## The statement -/

/-- What is said of a step that reports a fault. -/
structure FailsAt (machine : Machine) (state after : State) (instruction : Instruction)
    (trap : Trap) : Prop where
  /-- The fault is reported at the instruction, and the machine stays there. -/
  trap_pc : trap.pc = state.pc
  trap_line : trap.line = instruction.line
  pc_eq : after.pc = state.pc
  finished_eq : after.finished = state.finished
  /-- Unless the instruction was interrupted, nothing but the log has changed: no cell, no pointer,
  no count of arguments, not the return register, no table, and neither stream. -/
  unchanged : ¬ machine.Interrupted state instruction trap.fault →
    after = { state with log := after.log }
  /-- Then a further step reports the same again. -/
  again : ¬ machine.Interrupted state instruction trap.fault →
    (machine.step after).1 = .trapped trap

/-- An instruction that fails was refused or interrupted. -/
theorem refused_or_interrupted (hlibrary : machine.library.LeavesStacks)
    (hbase : state.stack.top + state.pending < state.stack.size)
    (hframe : state.stack.frame < state.stack.size) (hsize : state.stack.size ≤ 2 ^ 53)
    (hget : machine.program.code[state.pc]? = some instruction) {trap : Trap}
    (htrap : (machine.step state).1 = .trapped trap) :
    machine.Refused state instruction trap.fault ∨
      machine.Interrupted state instruction trap.fault := by
  -- There is an instruction to execute, so the machine neither finishes nor runs past the end.
  have hpc : state.pc < machine.program.code.size := (Array.getElem?_eq_some_iff.1 hget).1
  generalize hafter : machine.step state = outcome at htrap
  cases hafter ▸ machine.step_outcome state with
  | finished | finishes | next | jump => cases htrap
  | outside hgoing hout => exact absurd hpc (Nat.not_lt_of_lt hout)
  | astray hgoing hother hrun hout =>
      cases htrap
      cases hget.symm.trans hother
      rcases Exec.run_bind_ok hrun with ⟨action, between, hdecide, hperform⟩
      rcases Exec.run_decide_ok hdecide with ⟨hdecode, rfl⟩
      exact perform_astray_cases hlibrary hbase hframe hsize hpc hdecode hperform hout
  | trapped hgoing hother hrun =>
      cases htrap
      cases hget.symm.trans hother
      rcases execute_error hrun with ⟨hdecode, -⟩ | ⟨action, hdecode, hperform⟩
      · exact .inl (.decoding hdecode)
      · exact perform_error_cases hlibrary hbase hframe hsize hdecode hperform

/-- A step that fails stays at its instruction, and leaves everything as it was unless the
instruction was interrupted. -/
theorem failsAt_of_trapped (machine : Machine) (hlibrary : machine.library = .standard)
    {state : State} (hbase : state.stack.top + state.pending < state.stack.size)
    (hframe : state.stack.frame < state.stack.size) (hsize : state.stack.size ≤ 2 ^ 53)
    (hpc : state.pc < machine.program.code.size) {trap : Trap}
    (htrap : (machine.step state).1 = .trapped trap) :
    ∃ instruction, machine.program.code[state.pc]? = some instruction ∧
      machine.FailsAt state (machine.step state).2 instruction trap := by
  have hgoing : state.finished = false := by
    by_contra hfinished
    rw [step, if_pos (Bool.not_eq_false _ ▸ hfinished)] at htrap
    cases htrap
  -- The state need not be one that the machine comes to, but it is as good as one for a step.
  have hsound : machine.Sound state.stack.size state :=
    ⟨rfl, Nat.lt_of_le_of_lt (Nat.le_add_right _ _) hbase, hframe, hpc.le,
      fun hfinished => absurd (hgoing.symm.trans hfinished) Bool.false_ne_true⟩
  rcases step_sound hlibrary hsound with ⟨hafter, hblames⟩
  rcases hblames trap htrap with ⟨instruction, hget, hpcEq, hline, hstays, -⟩
  have hrefused (hnot : ¬ machine.Interrupted state instruction trap.fault) :
      machine.Refused state instruction trap.fault :=
    (refused_or_interrupted (hlibrary ▸ Library.standard_leavesStacks) hbase hframe hsize hget
      htrap).resolve_right hnot
  have hreports {reported : State} (h : reported.finished = false)
      (hreported : machine.program.code[reported.pc]? = some instruction)
      (hpcReported : reported.pc = state.pc)
      (hnot : machine.Refused reported instruction trap.fault) :
      machine.step reported = (.trapped trap, fetched reported instruction) := by
    rw [step_of_refused h hreported hnot, hpcReported, ← hpcEq, ← hline]
  refine ⟨instruction, hget, hpcEq, hline, hstays, ?_, fun hnot => ?_, fun hnot => ?_⟩
  · -- A machine that is at an instruction has not finished.
    rw [hgoing]
    by_contra hfinished
    have hend := hafter.at_end (Bool.not_eq_false _ ▸ hfinished)
    exact absurd (hend.symm.trans hstays) (Nat.ne_of_gt hpc)
  · rw [hreports hgoing hget rfl (hrefused hnot)]
    rfl
  · rw [hreports hgoing hget rfl (hrefused hnot)]
    have hagain := @hreports (fetched state instruction) hgoing hget rfl (hrefused hnot).fetched
    exact congrArg Prod.fst hagain

def denier : Machine where
  program := {
    code := #[⟨.negate, ⟨.global, 0⟩, .nil, .absent, 3⟩]
    globals := 1 }

def denierStart : State := { stack := ⟨Array.replicate 2 .undefined, 0, 0, 1⟩ }

/-- The only instruction of `denier` is refused, and refused again. -/
theorem failsAt_of_trapped_denier :
    denier.start 2 {} {} = .ok denierStart ∧
      (denier.step denierStart).1 = .trapped ⟨0, 3, .notANumber .negate .nil⟩ ∧
      (∃ instruction, denier.program.code[denierStart.pc]? = some instruction ∧
        denier.FailsAt denierStart (denier.step denierStart).2 instruction
          ⟨0, 3, .notANumber .negate .nil⟩) ∧
      (denier.step (denier.step denierStart).2).1 = .trapped ⟨0, 3, .notANumber .negate .nil⟩ := by
  have htrap : (denier.step denierStart).1 = .trapped ⟨0, 3, .notANumber .negate .nil⟩ := by
    decide +kernel
  obtain ⟨instruction, hget, hfails⟩ := failsAt_of_trapped denier rfl (by decide) (by decide)
    (by decide) (by decide) htrap
  refine ⟨rfl, htrap, ⟨instruction, hget, hfails⟩, hfails.again ?_⟩
  cases hget
  rintro (⟨hopcode⟩ | ⟨hopcode⟩ | ⟨hopcode⟩ | ⟨hopcode⟩ | ⟨hopcode⟩ | ⟨hopcode⟩)
  cases hopcode

end Machine
end CellMachine
