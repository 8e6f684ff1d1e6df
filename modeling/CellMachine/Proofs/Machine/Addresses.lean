import Mathlib
import CellMachine.Proofs.Machine.Returns

/-!
# Addresses of arguments

The library function `argument` looks up a cell of the frame that called it.  The index comes from a
number, and the count that it is compared with from a cell that the program may have overwritten, so
both can be as large as a machine word, and the address is computed in machine words.

Large numbers are sparse.  The largest word that is a number is `2 ^ 64 - 2048` and the next one is
`2 ^ 64 - 4096`, and in a stack of the default size only the former, and only from a frame in the
upper half, makes the sum wrap around.  `Machine.argument_exact_iff` says that in all other cases
the cell at the sum is answered, or the fault is that of the sum.  The machine `reacher` comes to
the one case.
-/

namespace CellMachine

open Library.Standard

/-! ## Indices that are numbers -/

/-- A word that a number stands for is a machine word. -/
theorem Number.toWord?_le {x : Float} {word : Nat} (h : toWord? x = some word) :
    word ≤ maxWord := by
  rw [toWord?] at h
  split at h
  · exact (Option.some.inj h).symm.le
  · split at h
    · exact (Option.some.inj h) ▸ Nat.min_le_right ..
    · cases h
  · cases h

/-- An index counts the units of some magnitude. -/
theorem Library.Standard.exists_units_of_index? {x : Float} {index : Nat}
    (h : index? x = some index) :
    ∃ bits, Number.unitsOfBits bits = index * Number.one := by
  have hint : Number.toInt? x = some (Int.ofNat index) := by
    rw [index?] at h
    split at h
    · rename_i n hint
      cases h
      exact hint
    · cases h
  rcases Number.value_of_toInt? hint with ⟨negative, hvalue⟩
  rw [Number.value] at hvalue
  split at hvalue
  · exact ⟨_, (Number.Value.finite.inj hvalue).2⟩
  · split at hvalue <;> cases hvalue

/-- Of the words that are numbers, the largest two are far apart. -/
theorem Library.Standard.index?_gap {x : Float} {index : Nat} (h : index? x = some index)
    (hlt : index < UInt64.size) (hne : index ≠ UInt64.size - 2048) :
    index ≤ UInt64.size - 4096 := by
  have hword : UInt64.size = 2 ^ 64 := rfl
  rcases exists_units_of_index? h with ⟨bits, hunits⟩
  rcases Nat.lt_or_ge index (2 ^ 63) with hsmall | hlarge
  · omega
  · -- From `2 ^ 63` on the whole numbers are multiples of 2048.
    rcases @Number.two_pow_dvd_of_units bits index 11 hunits hlarge with ⟨k, rfl⟩
    omega

/-! ## Lookups -/

namespace Stack

variable {stack : Stack} {base index count : Nat}

/-- An index that passes the test is looked up at a sum of words. -/
theorem actualAt_of_lt (hcount : stack.actualsAt base = .ok count) (hpasses : index < count) :
    stack.actualAt base index =
      some <$> stack.cell (addWords base (environmentSize + 1 + index)) := by
  rw [actualAt, hcount]
  change (if index < count then _ else _) = _
  rw [if_pos hpasses]
  rfl

/-- An argument that was passed is the cell at a sum of words. -/
theorem cell_of_actualAt {cell : Cell} (h : stack.actualAt base index = .ok (some cell)) :
    stack.cell (addWords base (environmentSize + 1 + index)) = .ok cell := by
  cases hcount : stack.actualsAt base with
  | error fault =>
      rw [actualAt, hcount] at h
      cases h
  | ok count =>
      by_cases hpasses : index < count
      · rw [actualAt_of_lt hcount hpasses] at h
        cases hcell : stack.cell (addWords base (environmentSize + 1 + index)) with
        | error fault =>
            rw [hcell] at h
            cases h
        | ok found =>
            rw [hcell] at h
            cases h
            rfl
      · rw [actualAt, hcount] at h
        change (if index < count then _ else _) = _ at h
        rw [if_neg hpasses] at h
        cases h

end Stack

namespace State

/-- What is answered if the cell at an address is looked up and the address is not shortened to a
word. -/
def lookedUp (state : State) (address : Nat) : EStateM.Result Fault State Unit :=
  if address < state.stack.size then .ok () (state.overwrite .result (state.stack.read address))
  else .error (Stack.outOfBounds address) state

/-- A lookup answers the cell at the address, if that lies in the stack. -/
theorem lookedUp_eq (state : State) (address : Nat) :
    state.lookedUp address = match state.stack.cell address with
      | .ok cell => .ok () (state.overwrite .result cell)
      | .error fault => .error fault state := by
  rw [lookedUp, Stack.cell]
  split <;> rfl

/-- Different cases of being in the stack are told apart. -/
theorem lookedUp_ne {state : State} {address other : Nat} (h : address < state.stack.size)
    (hother : state.stack.size ≤ other) : state.lookedUp address ≠ state.lookedUp other := by
  rw [lookedUp, lookedUp, if_pos h, if_neg (Nat.not_lt_of_le hother)]
  exact nofun

end State

namespace Library
namespace Standard

variable {state : State} {x : Float} {index frame count : Nat}

/-- An argument that passes the test of its index is looked up at a sum of words. -/
theorem run_argument_of_lt
    (hnumber : state.stack.actualAt state.stack.frame 0 = .ok (some (.number x)))
    (hindex : index? x = some index) (hcaller : state.stack.callerFrame = .ok (some frame))
    (hcount : state.stack.actualsAt frame = .ok count)
    (hpasses : min index Number.maxWord < count) :
    argument.run state = state.lookedUp
      (Stack.addWords frame (Stack.environmentSize + 1 + min index Number.maxWord)) := by
  have hactual : (Exec.actual 0).run state = .ok (some (.number x)) state :=
    Exec.run_decide_of_ok hnumber
  have hargument : (argumentOf "argument" 0).run state = .ok (.number x) state := by
    rw [argumentOf, Exec.run_bind_of_ok hactual]
    rfl
  have hread : (numberOf "argument").run state = .ok x state := by
    rw [numberOf, Exec.run_bind_of_ok hargument]
    rfl
  have hframe : Exec.callerFrame.run state = .ok (some frame) state :=
    Exec.run_decide_of_ok hcaller
  have hlookup := Stack.actualAt_of_lt hcount hpasses
  rw [argument, Exec.run_bind_of_ok hread]
  simp only [hindex]
  rw [Exec.run_bind_of_ok hframe, State.lookedUp_eq]
  change EStateM.run (Exec.ofExcept (state.stack.actualAt frame (min index Number.maxWord)) >>=
    fun cell => Exec.setResult (cell.getD .nil)) state = _
  rw [hlookup]
  cases state.stack.cell
    (Stack.addWords frame (Stack.environmentSize + 1 + min index Number.maxWord)) <;> rfl

end Standard
end Library

/-! ## The statement -/

namespace Machine

variable {machine : Machine} {state prepared : State} {name : String}

/-- While a library function executes, the frame that called it is the one of the state before, or
the outermost one. -/
theorem callerFrame_of_prepare (htop : state.stack.top < state.stack.size)
    (hframe : state.stack.frame < state.stack.size) (hsize : state.stack.size ≤ 2 ^ 53)
    (hprepare : (Exec.prepare name).run state = .ok () prepared) {frame : Nat}
    (hcaller : prepared.stack.callerFrame = .ok (some frame)) : frame = state.stack.frame := by
  have hprepares := Exec.prepare_prepares htop hprepare
  have hroom := hprepares.room
  have hsizeEq : prepared.stack.size = state.stack.size :=
    congrArg Registers.size hprepares.registers_eq
  have hframeEq : prepared.stack.frame = state.call.frame :=
    congrArg Registers.frame hprepares.registers_eq
  -- The call saved the frame, and its own frame is where that is read from.
  have hword : prepared.stack.saved .frame = .ok state.stack.frame := by
    rw [Stack.saved, hframeEq]
    refine hprepares.held.word_eq (hsizeEq ▸ hsize) ?_ .frame (hframe.le.trans hsize)
    rw [state.frame_call, hsizeEq]
    simp only [Stack.environmentSize] at hroom
    omega
  rw [Stack.callerFrame, hword] at hcaller
  change Except.ok (if state.stack.frame = prepared.stack.outermost then none
    else some state.stack.frame) = _ at hcaller
  split at hcaller
  · cases hcaller
  · cases hcaller
    rfl

/-- In a stack of the default size, the sum of a frame with an environment and an index is a word,
with one exception: the largest word that is a number, from a frame in the upper half. -/
theorem sum_lt_iff {x : Float} {index frame : Nat} (hindex : index? x = some index)
    (hword : index < UInt64.size) (hframe : frame + Stack.environmentSize < defaultStackSize) :
    frame + (Stack.environmentSize + 1 + index) < UInt64.size ↔
      ¬ (index = UInt64.size - 2048 ∧ 2043 ≤ frame) := by
  have hwords : UInt64.size = 2 ^ 64 := rfl
  have hdefault : defaultStackSize = 4094 := rfl
  have hfour : Stack.environmentSize = 4 := rfl
  rw [hfour] at hframe ⊢
  constructor
  · rintro hfits ⟨hlargest, hupper⟩
    omega
  · intro hnot
    by_cases hlargest : index = UInt64.size - 2048
    · have hlower : frame < 2043 := Nat.lt_of_not_le fun hupper => hnot ⟨hlargest, hupper⟩
      omega
    · have hgap := index?_gap hindex hword hlargest
      omega

/-- In a stack of the default size, `argument` reads its own argument from the cell at the exact
sum.  It looks up the argument of that index at the exact sum too, if the index passes the test, with
one exception: the largest word that is a number, from a frame in the upper half, wraps around. -/
theorem argument_exact_iff (machine : Machine) (hlibrary : machine.library = .standard)
    (hreach : machine.Reachable defaultStackSize state) (instruction : Instruction)
    (hprepare : (Exec.prepare "argument").run (fetched state instruction) = .ok () prepared)
    {x : Float} {index frame count : Nat}
    (hnumber : prepared.stack.actualAt prepared.stack.frame 0 = .ok (some (.number x)))
    (hindex : index? x = some index) (hcaller : prepared.stack.callerFrame = .ok (some frame))
    (hcount : prepared.stack.actualsAt frame = .ok count)
    (hpasses : min index Number.maxWord < count) :
    prepared.stack.cell (prepared.stack.frame + (Stack.environmentSize + 1)) = .ok (.number x) ∧
      (argument.run prepared = prepared.lookedUp (frame + (Stack.environmentSize + 1 + index)) ↔
        ¬ (index = UInt64.size - 2048 ∧ 2043 ≤ frame)) := by
  have hword : UInt64.size = 2 ^ 64 := rfl
  have hfive : Stack.environmentSize + 1 = 5 := rfl
  have hsound := hreach.sound hlibrary
  have hdefault : defaultStackSize = 4094 := rfl
  have hsizeEq : (fetched state instruction).stack.size = 4094 := hsound.size_eq.trans hdefault
  have htop : (fetched state instruction).stack.top < (fetched state instruction).stack.size :=
    hsizeEq ▸ hsound.top_lt
  have hframe : (fetched state instruction).stack.frame < (fetched state instruction).stack.size :=
    hsizeEq ▸ hsound.frame_lt
  have hregisters := (Exec.prepare_prepares htop hprepare).registers_eq
  have hprepared : prepared.stack.size = 4094 :=
    (congrArg Registers.size hregisters).trans hsizeEq
  have hsame := callerFrame_of_prepare htop hframe (by omega) hprepare hcaller
  -- The count was read, so the environment lies in the stack.
  have hheld : prepared.stack.HoldsAt (frame + Stack.environmentSize) count :=
    (Stack.word_eq_ok_iff (by change frame + 4 < UInt64.size; omega)).1 hcount
  have hbound := hheld.1
  have hcountLe : count ≤ Number.maxWord := by
    rcases Option.bind_eq_some_iff.1 hheld.2 with ⟨y, -, hy⟩
    exact Number.toWord?_le hy
  have hmax : Number.maxWord = 2 ^ 64 - 1 := rfl
  have hmin : min index Number.maxWord = index := by omega
  have hfits := @sum_lt_iff x index frame hindex (by omega) (by omega)
  have hrun := run_argument_of_lt hnumber hindex hcaller hcount hpasses
  rw [hmin] at hrun
  refine ⟨?_, ?_, ?_⟩
  · have hown := Stack.cell_of_actualAt hnumber
    have hcall : prepared.stack.frame = (fetched state instruction).call.frame :=
      congrArg Registers.frame hregisters
    have hbelow := (fetched state instruction).frame_call
    have hexact : Stack.addWords prepared.stack.frame (Stack.environmentSize + 1 + 0) =
        prepared.stack.frame + (Stack.environmentSize + 1) := by
      rw [Nat.add_zero, hfive]
      exact Nat.mod_eq_of_lt (by omega)
    rwa [hexact] at hown
  · rintro hexact ⟨hlargest, hupper⟩
    -- The sum is beyond all words, and the word that is left of it lies in the stack.
    have hwrapped : Stack.addWords frame (Stack.environmentSize + 1 + index) = frame + 5 - 2048 := by
      rw [Stack.addWords, hword, hfive]
      omega
    rw [hrun, hwrapped] at hexact
    exact State.lookedUp_ne (by omega) (by omega) hexact
  · intro hnot
    rw [hrun, Stack.addWords, Nat.mod_eq_of_lt (hfits.2 hnot)]

/-- A machine with a function that stores infinity as the count of its arguments and asks for one of
the largest index. -/
def reacher : Machine where
  program := {
    numbers := #[Number.ofNat (UInt64.size - 2048), Number.ofBits false Number.infinityBits]
    userFunctions := #[⟨2, 0, "f"⟩]
    libraryFunctions := #["argument"]
    code := #[⟨.call, .absent, ⟨.userFunction, 0⟩, .absent, 0⟩,
      ⟨.jump, ⟨.label, 6⟩, .absent, .absent, 0⟩,
      ⟨.enter, .absent, ⟨.userFunction, 0⟩, .absent, 0⟩,
      ⟨.assign, ⟨.global, 0⟩, ⟨.number, 1⟩, .absent, 0⟩,
      ⟨.pushArgument, .absent, ⟨.number, 0⟩, .absent, 0⟩,
      ⟨.call, .absent, ⟨.libraryFunction, 0⟩, .absent, 0⟩] }

def reacherStart : State :=
  { stack := ⟨Array.replicate defaultStackSize .undefined, 4093, 4093, 0⟩ }

def reacherCalls : State :=
  (reacher.run 4 reacherStart).state

def reaching : Instruction := ⟨.call, .absent, ⟨.libraryFunction, 0⟩, .absent, 0⟩

/-- What `argument` finds in its frame: its own argument, the frame of its caller, and infinity as
the count there. -/
theorem reaching_prepared :
    reacher.program.code[reacherCalls.pc]? = some reaching ∧ ∃ prepared,
      (Exec.prepare "argument").run (fetched reacherCalls reaching) = .ok () prepared ∧
      prepared.stack.size = defaultStackSize ∧
      prepared.stack.actualAt prepared.stack.frame 0 =
        .ok (some (.number (Number.ofNat (UInt64.size - 2048)))) ∧
      prepared.stack.callerFrame = .ok (some 4089) ∧
      prepared.stack.actualsAt 4089 = .ok Number.maxWord := by
  have hfinds : (match (Exec.prepare "argument").run (fetched reacherCalls reaching) with
      | .ok _ prepared => decide (reacher.program.code[reacherCalls.pc]? = some reaching ∧
          prepared.stack.size = defaultStackSize ∧
          prepared.stack.actualAt prepared.stack.frame 0 =
            .ok (some (.number (Number.ofNat (UInt64.size - 2048)))) ∧
          prepared.stack.callerFrame = .ok (some 4089) ∧
          prepared.stack.actualsAt 4089 = .ok Number.maxWord)
      | .error _ _ => false) = true := by
    decide +kernel
  cases hprepare : (Exec.prepare "argument").run (fetched reacherCalls reaching) with
  | error fault after =>
      rw [hprepare] at hfinds
      cases hfinds
  | ok x prepared =>
      rw [hprepare] at hfinds
      have hfound := of_decide_eq_true hfinds
      exact ⟨hfound.1, prepared, rfl, hfound.2⟩

/-- The call of `argument` is reached by running `reacher` from its start. -/
theorem reachable_reacherCalls : reacher.Reachable defaultStackSize reacherCalls := by
  have hstart : reacher.start defaultStackSize {} {} = .ok reacherStart := rfl
  rw [reacherCalls]
  exact .run 4 (.start hstart)

theorem index?_reaching :
    index? (Number.ofNat (UInt64.size - 2048)) = some (UInt64.size - 2048) := by
  decide +kernel

/-- `reacher` comes to the exception, and its own argument is read all the same. -/
theorem argument_exact_iff_reacher :
    reacher.Reachable defaultStackSize reacherCalls ∧ ∃ prepared,
      (Exec.prepare "argument").run (fetched reacherCalls reaching) = .ok () prepared ∧
      prepared.stack.cell (prepared.stack.frame + (Stack.environmentSize + 1)) =
        .ok (.number (Number.ofNat (UInt64.size - 2048))) ∧
      argument.run prepared ≠
        prepared.lookedUp (4089 + (Stack.environmentSize + 1 + (UInt64.size - 2048))) := by
  rcases reaching_prepared with ⟨-, prepared, hprepare, -, hnumber, hcaller, hcount⟩
  have hpasses : min (UInt64.size - 2048) Number.maxWord < Number.maxWord := by decide
  have hexact := argument_exact_iff reacher rfl reachable_reacherCalls reaching hprepare hnumber
    index?_reaching hcaller hcount hpasses
  exact ⟨reachable_reacherCalls, prepared, hprepare, hexact.1,
    fun h => hexact.2.1 h ⟨rfl, by decide⟩⟩

/-- Not every argument that passes the test is looked up at the exact sum: `reacher` asks for one far
outside of the stack, and instead of a fault it is answered the cell at 2046. -/
theorem reacher_wraps :
    reacher.Reachable defaultStackSize reacherCalls ∧
      reacher.program.code[reacherCalls.pc]? = some reaching ∧ ∃ prepared,
        (Exec.prepare "argument").run (fetched reacherCalls reaching) = .ok () prepared ∧
        prepared.stack.actualAt prepared.stack.frame 0 =
          .ok (some (.number (Number.ofNat (UInt64.size - 2048)))) ∧
        index? (Number.ofNat (UInt64.size - 2048)) = some (UInt64.size - 2048) ∧
        prepared.stack.callerFrame = .ok (some 4089) ∧
        prepared.stack.actualsAt 4089 = .ok Number.maxWord ∧
        UInt64.size - 2048 < Number.maxWord ∧
        prepared.stack.size < 4089 + (Stack.environmentSize + 1 + (UInt64.size - 2048)) ∧
        argument.run prepared = .ok () (prepared.overwrite .result (prepared.stack.read 2046)) := by
  rcases reaching_prepared with ⟨hget, prepared, hprepare, hsize, hnumber, hcaller, hcount⟩
  have hpasses : min (UInt64.size - 2048) Number.maxWord < Number.maxWord := by decide
  have hrun := run_argument_of_lt hnumber index?_reaching hcaller hcount hpasses
  have hwrapped : Stack.addWords 4089
      (Stack.environmentSize + 1 + min (UInt64.size - 2048) Number.maxWord) = 2046 := by
    decide
  have hin : 2046 < prepared.stack.size := by
    rw [hsize]
    decide
  rw [hwrapped, State.lookedUp, if_pos hin] at hrun
  refine ⟨reachable_reacherCalls, hget, prepared, hprepare, hnumber, index?_reaching, hcaller,
    hcount, by decide, ?_, hrun⟩
  rw [hsize]
  decide

end Machine
end CellMachine
