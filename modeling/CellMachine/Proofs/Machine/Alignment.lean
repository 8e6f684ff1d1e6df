import Mathlib
import CellMachine.Proofs.Library.Lockstep
import CellMachine.Proofs.Machine.Shift

/-!
# Aligned states

Two states are aligned if their cells implement the same open calls at shifted addresses and the
states differ in nothing else.  What the words of the open calls fix is then the same in both up to
the shift: which places the operands name, which arguments a frame holds, and what leaving restores.
So every action that respects the open calls does the same in both states.
-/

namespace CellMachine

open Activation

/-! ## Shifted actions -/

/-- Different places stay different when they move. -/
theorem Place.shift_injective (shift : Nat) : Function.Injective (Place.shift shift) := by
  rintro (address | _) (other | _) heq
  · exact congrArg Place.slot (Nat.add_right_cancel (Place.slot.inj heq))
  · cases heq
  · cases heq
  · rfl

/-- A source that moved is a place that moved only if it was that place. -/
theorem Source.shift_eq_place {shift : Nat} {source : Source} {place : Place} :
    source.shift shift = .place (place.shift shift) ↔ source = .place place := by
  cases source with
  | constant cell => exact ⟨nofun, nofun⟩
  | place there =>
      refine ⟨fun heq => ?_, fun heq => ?_⟩
      · exact congrArg Source.place (Place.shift_injective shift (Source.place.inj heq))
      · exact congrArg (Source.shift shift) heq

/-- A branch does not depend on where cells lie. -/
theorem Action.shift_branch (shift : Nat) (condition : Bool) (target : Nat) :
    (Action.branch condition target).shift shift = .branch condition target := by
  cases condition <;> rfl

/-- What a call comes down to writes to no place. -/
theorem Machine.callAction_shift (machine : Machine) (shift : Nat) (cell : Cell) :
    Action.shift shift <$> machine.callAction cell = machine.callAction cell := by
  unfold callAction
  split
  · split <;> rfl
  · rw [Functor.map_map]
    rfl
  · rw [Functor.map_map]
    rfl
  · rfl

/-- Entering a function depends on the place in the code only. -/
theorem Program.enterAction_shift (program : Program) {shift : Nat} {state state' : State}
    (hpc : state'.pc = state.pc) (operand : Operand) :
    program.enterAction state' operand =
      Action.shift shift <$> program.enterAction state operand := by
  rw [enterAction, enterAction, hpc]
  split
  · cases program.userFunction operand.value with
    | error fault => rfl
    | ok function =>
        simp only [bind, Except.bind]
        split <;> rfl
  · rfl

/-! ## What the open calls fix -/

/-- No argument of an open call is a word of an open call. -/
theorem Activation.Nested.not_isWord_argument {outermost : Nat} {activations : List Activation}
    (h : Nested outermost activations) {activation : Activation} (hmem : activation ∈ activations)
    {index : Nat} (hindex : index < activation.actuals) :
    ¬ IsWord activations (activation.frame + (Stack.environmentSize + 1 + index)) := by
  induction h with
  | nil => cases hmem
  | @cons innermost rest hcall hlocals h ih =>
      rcases List.mem_cons.1 hmem with rfl | hrest
      · intro hword
        have hcases := (Nested.cons hcall hlocals h).isWord_cons hword
        rw [Stack.environmentSize] at hcases
        omega
      · rintro ⟨other, hother, word, haddress⟩
        rcases List.mem_cons.1 hother with rfl | hother
        · -- The words of the innermost activation lie below the base of its caller.
          have hoffset := word.offset_bounds
          have hframe := hcall.frame_add
          have hbase := (h.isWord_bounds.2.2 _ ⟨activation, hrest, .actuals, rfl⟩).1
          rw [Stack.environmentSize] at haddress
          rw [EnvironmentWord.offset] at hbase
          omega
        · exact ih hrest ⟨other, hother, word, haddress⟩

namespace CallStack

def place (calls : CallStack) (size : Nat) (operand : Operand) : Except Fault Place :=
  match operand.kind with
  | .global => .ok (.slot (size - 1 - operand.value.toNat))
  | .local => .ok (.slot (calls.frame - operand.value.toNat))
  | .formal => .ok (.slot (calls.frame + Stack.environmentSize + 1 + operand.value.toNat))
  | .result => .ok .result
  | kind => .error (.invalidOperand kind .destination)

def called (calls : CallStack) (pc : Nat) : CallStack :=
  { calls with
    entering := some (calls.call pc)
    pushed := 0 }

/-- The open calls while an instruction executes a library function: that function has a frame of
its own. -/
def within (calls : CallStack) (pc : Nat) : CallStack :=
  { calls with
    activations := ⟨calls.call pc, 0⟩ :: calls.activations
    entering := none
    pushed := 0 }

variable {calls : CallStack} {size : Nat} {state : State}

/-- The locals of the innermost activation lie below its frame, its arguments below the base of its
caller. -/
theorem Rests.variable_bounds (h : calls.Rests size state) :
    calls.base + calls.localSize = calls.frame ∧
      (0 < calls.actuals → calls.frame + 4 + calls.actuals < size) := by
  have houtermost := h.outermost_eq
  have hnested := h.nested
  rw [base, localSize, frame, actuals]
  cases hlist : calls.activations with
  | nil => exact ⟨rfl, fun hpos => absurd hpos (Nat.lt_irrefl 0)⟩
  | cons activation rest =>
      rw [hlist] at hnested
      have hbounds := hnested.caller_bounds (List.mem_cons_self ..)
      cases hnested with
      | cons hcall hlocals hrest =>
          refine ⟨Nat.sub_add_cancel hlocals, fun _ => ?_⟩
          simp only [frameOf]
          omega

/-- A variable that is there lies where the open calls have it. -/
theorem Rests.place_eq (h : calls.Rests size state) {operand : Operand}
    (hrange : calls.InRange state.stack.globals operand) :
    state.place operand = calls.place size operand := by
  have hsize := h.size_eq
  have houtermost := h.outermost_eq
  have htop := h.top_eq
  have hbase : calls.base ≤ calls.outermost := h.nested.isWord_bounds.2.1
  have hlt : calls.frame < size := h.frame_lt
  have hbounds := h.variable_bounds
  rw [InRange] at hrange
  -- The address is computed from the high end or from the frame, and lies above the top.
  cases hkind : operand.kind with
  | global =>
      simp only [hkind] at hrange
      have haddress : state.stack.globalAddress operand.value =
          .ok (state.stack.size - 1 - operand.value.toNat) :=
        Stack.below_eq (by omega) (by omega)
      simp only [State.place, place, hkind, haddress, hsize]
      rfl
  | «local» =>
      simp only [hkind] at hrange
      have haddress : state.stack.localAddress operand.value =
          .ok (state.stack.frame - operand.value.toNat) :=
        Stack.below_eq (by rw [h.frame_eq]; omega) (by rw [h.frame_eq]; omega)
      simp only [State.place, place, hkind, haddress, h.frame_eq]
      rfl
  | formal =>
      simp only [hkind] at hrange
      have hlast := hbounds.2 (Nat.lt_of_le_of_lt (Nat.zero_le _) hrange)
      have haddress : state.stack.formalAddress operand.value =
          .ok (state.stack.frame + Stack.environmentSize + 1 + operand.value.toNat) := by
        refine Stack.allocated_eq ?_ ?_
        all_goals
          rw [h.frame_eq, Stack.environmentSize]
          omega
      simp only [State.place, place, hkind, haddress, h.frame_eq]
      rfl
  | _ => simp only [State.place, place, hkind]

/-- The environment of an open call lies in the stack. -/
theorem Rests.word_lt (h : calls.Rests size state) {activation : Activation}
    (hmem : activation ∈ calls.activations) :
    activation.frame + 4 + activation.actuals < state.stack.size := by
  have hbounds := h.nested.caller_bounds hmem
  have houtermost := h.outermost_eq
  rw [h.size_eq]
  omega

/-- The arguments of an open call lie above its environment. -/
theorem Rests.actualAt_eq (h : calls.Rests size state) (hsize : size ≤ 2 ^ 53)
    {activation : Activation} (hmem : activation ∈ calls.activations) (index : Nat) :
    state.stack.actualAt activation.frame index =
      .ok (if index < activation.actuals then
        some (state.stack.read (activation.frame + (Stack.environmentSize + 1 + index)))
      else none) := by
  have hlt := h.word_lt hmem
  have hsizeEq := h.size_eq
  have hactuals : state.stack.actualsAt activation.frame = .ok activation.actuals :=
    (Machine.words_of_rests hsize h hmem).2.2.2
  rw [Stack.actualAt, hactuals]
  simp only [bind, Except.bind]
  split
  · rename_i hindex
    have hadd : Stack.addWords activation.frame (Stack.environmentSize + 1 + index) =
        activation.frame + (Stack.environmentSize + 1 + index) := by
      apply Nat.mod_eq_of_lt
      have : (2 : Nat) ^ 53 < UInt64.size := by decide
      rw [Stack.environmentSize]
      omega
    rw [hadd, Stack.cell, if_pos (by rw [Stack.environmentSize]; omega)]
    rfl
  · rfl

/-- The caller of the innermost activation is the outermost frame, or the next older activation. -/
theorem Rests.callerFrame_eq (h : calls.Rests size state) (hsize : size ≤ 2 ^ 53)
    {activation : Activation} {rest : List Activation}
    (hlist : calls.activations = activation :: rest) :
    state.stack.callerFrame = .ok (rest.head?.map fun caller => caller.frame) := by
  have hmem : activation ∈ calls.activations := hlist ▸ List.mem_cons_self ..
  have hframe : state.stack.frame = activation.frame := by
    rw [h.frame_eq, frame, hlist, frameOf]
  have houtermost : state.stack.outermost = calls.outermost := by
    have := h.outermost_eq
    rw [Stack.outermost, h.size_eq]
    omega
  have hsaved : state.stack.saved .frame = .ok activation.callerFrame := by
    rw [Stack.saved, hframe]
    exact (Machine.words_of_rests hsize h hmem).1
  rw [Stack.callerFrame, hsaved, houtermost]
  have hnested := h.nested
  rw [hlist] at hnested
  cases hnested with
  | cons hcall hlocals hrest =>
      simp only [bind, Except.bind]
      rw [hcall.frame_eq]
      -- Only the outermost activation was called from the outermost base.
      cases rest with
      | nil => exact congrArg Except.ok (if_pos rfl)
      | cons caller older =>
          have hbounds := hrest.caller_bounds (List.mem_cons_self ..)
          refine congrArg Except.ok (if_neg ?_)
          simp only [frameOf]
          omega

/-- What leaving the innermost activation restores. -/
theorem Rests.environment_eq (h : calls.Rests size state) (hsize : size ≤ 2 ^ 53)
    {activation : Activation} {rest : List Activation}
    (hlist : calls.activations = activation :: rest) {target : Nat}
    (htarget : Number.toWord? (Number.ofNat (activation.callPc + 1)) = some target) :
    Exec.environment state.stack =
      .ok ⟨activation.callerBase, activation.callerFrame, target⟩ := by
  have hmem : activation ∈ calls.activations := hlist ▸ List.mem_cons_self ..
  have hframe : state.stack.frame = activation.frame := by
    rw [h.frame_eq, frame, hlist, frameOf]
  have hlt := h.word_lt hmem
  have hbounds := h.nested.caller_bounds hmem
  have hsizeEq := h.size_eq
  have houtermost := h.outermost_eq
  exact Exec.environment_of_held (hsizeEq ▸ hsize)
    (show activation.frame + 4 < state.stack.size by omega) hframe (h.held activation hmem)
    (by omega) (by omega) htarget

/-! ## Shifted calls -/

/-- What open calls save lies in the environments of their activations. -/
theorem savesAddressAt_isWord (hentering : calls.entering = none) {address : Nat}
    (h : calls.SavesAddressAt address) : IsWord calls.activations address := by
  rcases h with ⟨call, hmem, haddress⟩
  rw [saved, hentering, Option.toList_none, List.nil_append] at hmem
  rcases List.mem_map.1 hmem with ⟨activation, hactivation, rfl⟩
  rcases haddress with rfl | rfl
  · exact ⟨activation, hactivation, .frame, rfl⟩
  · exact ⟨activation, hactivation, .top, rfl⟩

/-- Two states in which the same calls are open at shifted addresses, and which differ in nothing
else. -/
structure Aligned (calls : CallStack) (size shift : Nat) (state state' : State) : Prop where
  rests : calls.Rests size state
  rests' : (calls.shift shift).Rests (size + shift) state'
  shifted : state.Shifted shift calls.SavesAddressAt state'

namespace Aligned

variable {shift : Nat} {state' next next' : State}

/-- What neither moves a pointer nor writes a cell keeps states aligned. -/
theorem of_shifted (h : calls.Aligned size shift state state')
    (hregisters : next.registers = state.registers) (hstack : next.stack = state.stack)
    (hregisters' : next'.registers = state'.registers) (hstack' : next'.stack = state'.stack)
    (hshifted : next.Shifted shift calls.SavesAddressAt next') :
    calls.Aligned size shift next next' :=
  ⟨h.rests.of_agree hregisters fun _ _ => by rw [hstack],
    h.rests'.of_agree hregisters' fun _ _ => by rw [hstack'], hshifted⟩

/-- The logs of two aligned states need not agree. -/
theorem report (h : calls.Aligned size shift state state') (event event' : Event) :
    calls.Aligned size shift (state.report event) (state'.report event') :=
  h.of_shifted rfl rfl rfl rfl (h.shifted.report event event')

/-- The same answer keeps two states aligned. -/
theorem answer (h : calls.Aligned size shift state state') (cell : Cell) :
    calls.Aligned size shift (state.overwrite .result cell) (state'.overwrite .result cell) :=
  h.of_shifted rfl rfl rfl rfl (h.shifted.overwrite .result cell)

/-- The same new table keeps two states aligned. -/
theorem createTable (h : calls.Aligned size shift state state') (entries : List Entry) :
    calls.Aligned size shift (state.createTable entries).2 (state'.createTable entries).2 :=
  h.of_shifted (state.registers_createTable entries) (state.stack_createTable entries)
    (state'.registers_createTable entries) (state'.stack_createTable entries)
    (h.shifted.createTable entries).2

theorem frame_shift (h : calls.Aligned size shift state state') :
    (calls.shift shift).frame = calls.frame + shift := by
  rw [← h.rests'.frame_eq, ← h.rests.frame_eq]
  exact h.shifted.stack.frame_eq

theorem base_shift (h : calls.Aligned size shift state state') :
    (calls.shift shift).base = calls.base + shift := by
  rw [← h.rests'.top_eq, ← h.rests.top_eq, h.shifted.stack.top_eq, h.shifted.pending_eq]
  exact Nat.add_right_comm _ _ _

theorem call_shift (h : calls.Aligned size shift state state') (pc : Nat) :
    (calls.shift shift).call pc = (calls.call pc).shift shift := by
  rw [CallStack.call, h.frame_shift, h.base_shift]
  rfl

/-! ## Variables -/

/-- Aligned states have the same count of globals. -/
theorem globals_eq (h : calls.Aligned size shift state state') :
    state'.stack.globals = state.stack.globals :=
  h.shifted.stack.globals_eq

/-- Which variables are in range does not depend on where cells lie. -/
theorem inRange_shift {globals : Nat} {operand : Operand} :
    (calls.shift shift).InRange globals operand ↔ calls.InRange globals operand := by
  rcases calls with ⟨outermost, activations, entering, pushed⟩
  cases activations <;> exact Iff.rfl

/-- A variable that is there lies some cells higher up. -/
theorem place_eq (h : calls.Aligned size shift state state') {operand : Operand}
    (hrange : calls.InRange state.stack.globals operand) :
    state'.place operand = Place.shift shift <$> state.place operand := by
  have hrange' : (calls.shift shift).InRange state'.stack.globals operand :=
    inRange_shift.2 (h.globals_eq ▸ hrange)
  have hbounds := h.rests.variable_bounds
  have houtermost := h.rests.outermost_eq
  rw [h.rests.place_eq hrange, h.rests'.place_eq hrange', CallStack.place, CallStack.place,
    h.frame_shift]
  rw [InRange] at hrange
  cases hkind : operand.kind with
  | global =>
      simp only [hkind] at hrange
      exact congrArg (fun address => Except.ok (Place.slot address)) (by omega)
  | «local» =>
      simp only [hkind] at hrange
      exact congrArg (fun address => Except.ok (Place.slot address)) (by omega)
  | formal => exact congrArg (fun address => Except.ok (Place.slot address)) (by omega)
  | _ => rfl

/-- A place that an operand names holds the same cell. -/
theorem read_eq (h : calls.Aligned size shift state state') {operand : Operand} {place : Place}
    (hrange : calls.InRange state.stack.globals operand)
    (hplace : state.place operand = .ok place) :
    state'.read (place.shift shift) = state.read place := by
  cases place with
  | result => exact h.shifted.result_eq
  | slot address =>
      refine h.shifted.stack.read_eq address fun hsaves => ?_
      exact h.rests.not_isWord hrange hplace (savesAddressAt_isWord h.rests.entering_eq hsaves)

/-! ## Frames of open calls -/

theorem activation_mem (activation : Activation) (hmem : activation ∈ calls.activations) :
    activation.shift shift ∈ (calls.shift shift).activations :=
  List.mem_map_of_mem hmem

theorem activation_frame (h : calls.Aligned size shift state state') {activation : Activation}
    (hmem : activation ∈ calls.activations) :
    (activation.shift shift).frame = activation.frame + shift := by
  have hbounds := h.rests.nested.caller_bounds hmem
  change activation.callerBase + shift - (Stack.environmentSize + activation.actuals) =
    activation.frame + shift
  rw [Stack.environmentSize]
  omega

/-- An open call has the same arguments in both states. -/
theorem sameArguments (h : calls.Aligned size shift state state') (hsize : size + shift ≤ 2 ^ 53)
    {activation : Activation} (hmem : activation ∈ calls.activations) :
    state.stack.SameArguments activation.frame state'.stack (activation.frame + shift) := by
  have hsize' : size ≤ 2 ^ 53 := (Nat.le_add_right _ _).trans hsize
  have hmem' : activation.shift shift ∈ (calls.shift shift).activations :=
    activation_mem activation hmem
  refine ⟨?_, fun index => ?_⟩
  · rw [← h.activation_frame hmem]
    exact (Machine.words_of_rests hsize h.rests' hmem').2.2.2.trans
      (Machine.words_of_rests hsize' h.rests hmem).2.2.2.symm
  · have heq := h.rests.actualAt_eq hsize' hmem index
    have heq' := h.rests'.actualAt_eq hsize hmem' index
    rw [h.activation_frame hmem] at heq'
    rw [heq, heq']
    change Except.ok (if index < activation.actuals then _ else _) = _
    split
    · rename_i hindex
      -- The arguments lie between the environment and the words of the older calls.
      have hcell : ¬ calls.SavesAddressAt
          (activation.frame + (Stack.environmentSize + 1 + index)) := by
        intro hsaves
        have hword := savesAddressAt_isWord h.rests.entering_eq hsaves
        exact h.rests.nested.not_isWord_argument hmem hindex hword
      rw [← h.shifted.stack.read_eq _ hcell, Nat.add_right_comm]
    · rfl

/-- While a function executes, the states look the same to a library function. -/
theorem linked (hsize : size + shift ≤ 2 ^ 53) {activation : Activation} {rest : List Activation}
    (hlist : calls.activations = activation :: rest) :
    State.Linked (calls.Aligned size shift) where
  own state state' h := by
    have hmem : activation ∈ calls.activations := hlist ▸ List.mem_cons_self ..
    have hframe : state.stack.frame = activation.frame := by
      rw [h.rests.frame_eq, CallStack.frame, hlist, frameOf]
    rw [h.shifted.stack.frame_eq, hframe]
    exact h.sameArguments hsize hmem
  caller state state' h := by
    have hcaller := h.rests.callerFrame_eq ((Nat.le_add_right _ _).trans hsize) hlist
    have hlist' : (calls.shift shift).activations =
        activation.shift shift :: rest.map (Activation.shift shift) :=
      congrArg (List.map (Activation.shift shift)) hlist
    have hcaller' := h.rests'.callerFrame_eq hsize hlist'
    cases rest with
    | nil => exact .outermost hcaller hcaller'
    | cons caller older =>
        have hmem : caller ∈ calls.activations := by simp [hlist]
        refine .frame _ _ hcaller (hcaller'.trans ?_) (h.sameArguments hsize hmem)
        exact congrArg (fun frame => Except.ok (some frame)) (h.activation_frame hmem)
  heap_eq state state' h := h.shifted.heap_eq
  console_eq state state' h := h.shifted.console_eq
  report state state' event h := h.report event event
  console state state' console h :=
    h.of_shifted rfl rfl rfl rfl { h.shifted with console_eq := rfl }
  answer state state' cell h := h.answer cell
  table state state' entries h := by
    rw [(h.shifted.createTable entries).1]
    exact (h.createTable entries).answer _

/-! ## Decoding -/

/-- An operand in range stands for the same constant, or for the same place some cells higher up,
and for the same cell there. -/
theorem source_eq (h : calls.Aligned size shift state state') (program : Program)
    {operand : Operand} (hrange : calls.InRange state.stack.globals operand) :
    program.source state' operand = Source.shift shift <$> program.source state operand ∧
      ∀ source, program.source state operand = .ok source →
        state'.value (source.shift shift) = state.value source := by
  -- A place moves with the cells; a constant does not depend on the state.
  rw [Program.source, Program.source, h.place_eq hrange]
  split
  · refine ⟨?_, fun source hsource => ?_⟩
    · cases state.place operand <;> rfl
    · cases hplace : state.place operand with
      | ok place =>
          rw [hplace] at hsource
          cases hsource
          exact h.read_eq hrange hplace
      | error fault =>
          rw [hplace] at hsource
          cases hsource
  · refine ⟨?_, fun source hsource => ?_⟩
    · cases program.constantCell operand <;> rfl
    · cases hcell : program.constantCell operand with
      | ok cell =>
          rw [hcell] at hsource
          cases hsource
          rfl
      | error fault =>
          rw [hcell] at hsource
          cases hsource

/-- An operand in range stands for the same cell. -/
theorem operandCell_eq (h : calls.Aligned size shift state state') (program : Program)
    {operand : Operand} (hrange : calls.InRange state.stack.globals operand) :
    program.operandCell state' operand = program.operandCell state operand := by
  have hsource := h.source_eq program hrange
  rw [Program.operandCell, Program.operandCell, hsource.1]
  cases hread : program.source state operand with
  | ok source => exact congrArg Except.ok (hsource.2 source hread)
  | error fault => rfl

/-- Aligned states have the same tables. -/
theorem lookup_eq (h : calls.Aligned size shift state state') (missing : MissingKey) (id : TableId)
    (cell : Cell) : state'.lookup missing id cell = state.lookup missing id cell := by
  rw [State.lookup, State.lookup, h.shifted.heap_eq]

/-- An instruction that respects the open calls is decoded to the same action some cells higher
up. -/
theorem decode_eq (h : calls.Aligned size shift state state') (machine : Machine)
    {instruction : Instruction} (hallows : calls.Allows state.stack.globals instruction) :
    machine.decode state' instruction =
      Action.shift shift <$> machine.decode state instruction := by
  have hoperands := hallows.operands h.rests.entering_eq
  rcases instruction with ⟨opcode, result, first, second, line⟩
  simp only [List.mem_cons, List.not_mem_nil, or_false, forall_eq_or_imp, forall_eq] at hoperands
  rcases hoperands with ⟨hresult, hfirst, hsecond⟩
  have hcell₀ := h.operandCell_eq machine.program hresult
  have hcell₁ := h.operandCell_eq machine.program hfirst
  have hcell₂ := h.operandCell_eq machine.program hsecond
  -- The operands are resolved in the same order in both states, each to the same cell or fault.
  cases opcode with
  | assign =>
      rcases h.source_eq machine.program hfirst with ⟨hsource, hvalue⟩
      simp only [Machine.decode, h.place_eq hresult, hsource, bind_map_left, map_bind, map_pure]
      cases state.place result with
      | error fault => rfl
      | ok place =>
          cases hread : machine.program.source state first with
          | error fault => rfl
          | ok source =>
              change Except.ok (if source.shift shift = .place (place.shift shift) then Action.skip
                else .copy (place.shift shift) (state'.value (source.shift shift))) =
                  Except.ok (Action.shift shift
                    (if source = .place place then .skip else .copy place (state.value source)))
              simp only [Source.shift_eq_place, hvalue source hread]
              split <;> rfl
  | arithmetic op =>
      simp only [Machine.decode, Program.operandNumber, h.place_eq hresult, hcell₁, hcell₂,
        bind_map_left, map_bind, map_pure, Action.shift]
  | negate =>
      simp only [Machine.decode, Program.operandNumber, h.place_eq hresult, hcell₁,
        bind_map_left, map_bind, map_pure, Action.shift]
  | connective op =>
      simp only [Machine.decode, h.place_eq hresult, hcell₁, hcell₂, bind_map_left, map_bind,
        map_pure, Action.shift]
  | not =>
      simp only [Machine.decode, h.place_eq hresult, hcell₁, bind_map_left, map_bind, map_pure,
        Action.shift]
  | jump => simp only [Machine.decode, map_bind, map_pure, Action.shift]
  | jumpEqual | jumpUnequal =>
      simp only [Machine.decode, hcell₁, hcell₂, map_bind, map_pure, Action.shift_branch]
  | jumpIf relation =>
      simp only [Machine.decode, Program.operandNumber, hcell₁, hcell₂, map_bind, map_pure,
        Action.shift_branch]
  | call => simp only [Machine.decode, hcell₁, map_bind, machine.callAction_shift]
  | pushArgument => simp only [Machine.decode, hcell₁, map_bind, map_pure, Action.shift]
  | enter =>
      simp only [Machine.decode]
      exact machine.program.enterAction_shift h.shifted.pc_eq first
  | leave => simp only [Machine.decode, map_pure, Action.shift]
  | newTable =>
      simp only [Machine.decode, h.place_eq hfirst, bind_map_left, map_bind, map_pure, Action.shift]
  | tableGet =>
      simp only [Machine.decode, Program.operandTable, h.place_eq hresult, hcell₁, hcell₂,
        h.lookup_eq, bind_map_left, map_bind, map_pure, Action.shift]
  | tableSet =>
      simp only [Machine.decode, Program.operandTable, hcell₀, hcell₁, hcell₂, map_bind, map_pure,
        Action.shift]
  | nop => simp only [Machine.decode, map_pure, Action.shift]

end Aligned
end CallStack
end CellMachine
