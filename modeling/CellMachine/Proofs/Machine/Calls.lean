import Mathlib
import CellMachine.Proofs.Library.Standard
import CellMachine.Proofs.Machine.CallStack
import CellMachine.Proofs.Machine.Writes
import CellMachine.Proofs.Number.Word

/-!
# What calls leave in the cells

A call that succeeds leaves its environment in four cells below the arguments, and leaving a frame
reads it from there: a word is read back as it was saved if it is not beyond `2 ^ 53`.  A call of a
library function does both, so it ends where it started but for the pending arguments.
-/

namespace CellMachine

/-! ## Moving the top -/

namespace Stack

/-- One cell is allocated if one is free. -/
theorem lower_yields (stack : Stack) :
    Yields stack.lower fun stack' =>
      0 < stack.top ∧ stack' = { stack with top := stack.top - 1 } := by
  rw [lower]
  split
  · exact Yields.throw fun _ => nofun
  · rename_i h
    exact ⟨Nat.pos_of_ne_zero h, rfl⟩

/-- Cells are allocated if so many are free. -/
theorem reserve_yields (stack : Stack) (count : Nat) :
    Yields (stack.reserve count) fun stack' =>
      count ≤ stack.top ∧ stack' = { stack with top := stack.top - count } := by
  rw [reserve]
  split
  · rename_i h
    exact ⟨h, rfl⟩
  · exact Yields.throw fun _ => nofun

end Stack

theorem Exec.run_lower_ok {start after : State}
    (h : (Exec.updateStack Stack.lower).run start = .ok () after) :
    0 < start.stack.top ∧
      after = { start with stack := { start.stack with top := start.stack.top - 1 } } := by
  rcases run_updateStack_ok h with ⟨stack, hstack, rfl⟩
  rcases (Stack.lower_yields _).ok hstack with ⟨hpos, rfl⟩
  exact ⟨hpos, rfl⟩

/-! ## Environments in cells -/

def Call.HeldBy (call : Call) (stack : Stack) : Prop :=
  ∀ word : EnvironmentWord,
    stack.read (call.frame + word.offset) = .number (Number.ofNat (call.word word))

namespace Stack

/-- A cell that holds a number for a word is read as that word. -/
theorem word_of_read {stack : Stack} {base offset word : Nat} {x : Float}
    (haddress : addWords base offset < stack.size)
    (hread : stack.read (addWords base offset) = .number x) (hword : Number.toWord? x = some word) :
    stack.word base offset = .ok word := by
  have hcell : stack.cell (addWords base offset) = .ok (.number x) := by
    rw [cell, if_pos haddress, hread]
  have hnumber : (Cell.number x).number?.bind Number.toWord? = some word := by
    rw [Cell.number?, Option.bind_some, hword]
  rw [Stack.word, hcell]
  simp only [bind, Except.bind]
  rw [hnumber]
  rfl

end Stack

/-- The environment of a call is read back as it was saved. -/
theorem Call.HeldBy.word_eq {call : Call} {stack : Stack} (h : call.HeldBy stack)
    (hsize : stack.size ≤ 2 ^ 53) (hlt : call.frame + 4 < stack.size) (word : EnvironmentWord)
    (hword : call.word word ≤ 2 ^ 53) :
    stack.word call.frame word.offset = .ok (call.word word) := by
  have hoffset := word.offset_bounds
  have hadd : Stack.addWords call.frame word.offset = call.frame + word.offset := by
    apply Nat.mod_eq_of_lt
    have : (2 : Nat) ^ 53 < UInt64.size := by decide
    omega
  refine Stack.word_of_read ?_ (hadd ▸ h word) (Number.toWord?_ofNat hword)
  omega

/-! ## Saving an environment -/

def State.call (state : State) : Call :=
  ⟨state.pc, state.stack.frame, state.stack.top + state.pending, state.pending⟩

/-- The frame of a call lies four cells below the top. -/
theorem State.frame_call (state : State) : state.call.frame = state.stack.top - 4 := by
  simp only [Call.frame, State.call, Stack.environmentSize]
  omega

namespace Exec

structure Pushes (word : Nat) (start after : State) : Prop where
  top_pos : 0 < start.stack.top
  registers_eq : after.registers = { start.registers with top := start.stack.top - 1 }
  read_top : start.stack.top < start.stack.size →
    after.stack.read start.stack.top = .number (Number.ofNat word)
  read_of_ne : ∀ address, address ≠ start.stack.top →
    after.stack.read address = start.stack.read address

theorem Pushes.top_eq {word : Nat} {start after : State} (h : Pushes word start after) :
    after.stack.top = start.stack.top - 1 :=
  congrArg Registers.top h.registers_eq

theorem Pushes.size_eq {word : Nat} {start after : State} (h : Pushes word start after) :
    after.stack.size = start.stack.size :=
  congrArg Registers.size h.registers_eq

/-- A pushed word goes into the cell at the top. -/
theorem pushWord_pushes {word : Nat} {start after : State}
    (h : (pushWord word).run start = .ok () after) : Pushes word start after := by
  rcases run_bind_ok h with ⟨⟨⟩, between, hwrite, h⟩
  cases hwrite
  have hregisters :=
    start.registers_overwrite (.slot start.stack.top) (.number (Number.ofNat word))
  have htop : (start.overwrite (.slot start.stack.top) (.number (Number.ofNat word))).stack.top =
      start.stack.top := congrArg Registers.top hregisters
  rcases run_lower_ok h with ⟨hpos, rfl⟩
  rw [htop] at hpos ⊢
  refine ⟨hpos, ?_, start.read_overwrite_self _, ?_⟩
  · rw [← hregisters]
    rfl
  · intro address hne
    exact start.read_overwrite_of_ne _ fun heq => hne (Place.slot.inj heq).symm

/-- Four pushed words lie from the top down in the order in which they were pushed. -/
theorem Pushes.reads {w₁ w₂ w₃ w₄ : Nat} {start s₁ s₂ s₃ after : State}
    (htop : start.stack.top < start.stack.size) (p₁ : Pushes w₁ start s₁) (p₂ : Pushes w₂ s₁ s₂)
    (p₃ : Pushes w₃ s₂ s₃) (p₄ : Pushes w₄ s₃ after) :
    after.stack.read start.stack.top = .number (Number.ofNat w₁) ∧
      after.stack.read (start.stack.top - 1) = .number (Number.ofNat w₂) ∧
      after.stack.read (start.stack.top - 2) = .number (Number.ofNat w₃) ∧
      after.stack.read (start.stack.top - 3) = .number (Number.ofNat w₄) := by
  have hpos := p₄.top_pos
  have t₁ : s₁.stack.top = start.stack.top - 1 := p₁.top_eq
  have t₂ : s₂.stack.top = start.stack.top - 2 := by
    rw [p₂.top_eq, t₁]
    omega
  have t₃ : s₃.stack.top = start.stack.top - 3 := by
    rw [p₃.top_eq, t₂]
    omega
  -- Each word goes where the top was left by those before it, and the later ones go below it.
  refine ⟨?_, ?_, ?_, ?_⟩
  · calc
      after.stack.read start.stack.top = s₃.stack.read start.stack.top :=
        p₄.read_of_ne _ (by omega)
      _ = s₂.stack.read start.stack.top := p₃.read_of_ne _ (by omega)
      _ = s₁.stack.read start.stack.top := p₂.read_of_ne _ (by omega)
      _ = .number (Number.ofNat w₁) := p₁.read_top htop
  · rw [← t₁]
    calc
      after.stack.read s₁.stack.top = s₃.stack.read s₁.stack.top := p₄.read_of_ne _ (by omega)
      _ = s₂.stack.read s₁.stack.top := p₃.read_of_ne _ (by omega)
      _ = .number (Number.ofNat w₂) := p₂.read_top (by rw [p₁.size_eq]; omega)
  · rw [← t₂]
    calc
      after.stack.read s₂.stack.top = s₃.stack.read s₂.stack.top := p₄.read_of_ne _ (by omega)
      _ = .number (Number.ofNat w₃) := p₃.read_top (by rw [p₂.size_eq, p₁.size_eq]; omega)
  · rw [← t₃]
    exact p₄.read_top (by rw [p₃.size_eq, p₂.size_eq, p₁.size_eq]; omega)

/-- What a saved environment changes: the four cells from the top down, and the top. -/
structure Saves (start after : State) : Prop where
  room : Stack.environmentSize ≤ start.stack.top
  registers_eq : after.registers = { start.registers with top := start.call.frame }
  held : start.call.HeldBy after.stack
  read_of_lt : ∀ address, start.stack.top < address →
    after.stack.read address = start.stack.read address

/-- Saving an environment writes its four words from the top down. -/
theorem saveEnvironment_saves {start after : State} (htop : start.stack.top < start.stack.size)
    (h : saveEnvironment.run start = .ok () after) : Saves start after := by
  rcases run_bind_ok h with ⟨state, between, hget, h⟩
  cases hget
  rcases run_bind_ok h with ⟨⟨⟩, s₁, h₁, h⟩
  rcases run_bind_ok h with ⟨⟨⟩, s₂, h₂, h⟩
  rcases run_bind_ok h with ⟨⟨⟩, s₃, h₃, h₄⟩
  have p₁ := pushWord_pushes h₁
  have p₂ := pushWord_pushes h₂
  have p₃ := pushWord_pushes h₃
  have p₄ := pushWord_pushes h₄
  have t₁ := p₁.top_eq
  have t₂ := p₂.top_eq
  have t₃ := p₃.top_eq
  have hpos := p₄.top_pos
  have hframe := start.frame_call
  refine ⟨?_, ?_, ?_, ?_⟩
  · rw [Stack.environmentSize]
    omega
  · rw [p₄.registers_eq, p₃.registers_eq, p₂.registers_eq, p₁.registers_eq, hframe,
      show s₃.stack.top - 1 = start.stack.top - 4 by omega]
  · -- The last word lies right above the new frame, the first one four cells above it.
    rcases Pushes.reads htop p₁ p₂ p₃ p₄ with ⟨hactuals, hreturn, hbase, hcaller⟩
    have haddress (word : EnvironmentWord) : start.call.frame + word.offset =
        start.stack.top - (4 - word.offset) := by
      have hoffset := word.offset_bounds
      omega
    intro word
    rw [haddress]
    cases word with
    | frame => exact hcaller
    | top => exact hbase
    | returnTo => exact hreturn
    | actuals => exact hactuals
  · intro address haddress
    calc
      after.stack.read address = s₃.stack.read address := p₄.read_of_ne _ (by omega)
      _ = s₂.stack.read address := p₃.read_of_ne _ (by omega)
      _ = s₁.stack.read address := p₂.read_of_ne _ (by omega)
      _ = start.stack.read address := p₁.read_of_ne _ (by omega)

/-- A report touches neither pointers nor cells. -/
theorem Saves.of_report {start after : State} {event : Event}
    (h : Saves (start.report event) after) : Saves start after :=
  ⟨h.room, h.registers_eq, h.held, h.read_of_lt⟩

/-- A call of a function of the program saves its environment. -/
theorem callUser_saves {address : Nat} {start after : State}
    (htop : start.stack.top < start.stack.size)
    (h : (callUser address).run start = .ok () after) : Saves start after := by
  rcases run_bind_ok h with ⟨⟨⟩, reported, hreport, hsave⟩
  cases hreport
  exact Saves.of_report (saveEnvironment_saves htop hsave)

/-! ## Entering and pushing -/

/-- What a pushed argument changes: the cell at the top, the top, and the count of arguments. -/
theorem run_pushArgument_ok {cell : Cell} {start after : State}
    (h : (pushArgument cell).run start = .ok () after) :
    after.registers = { start.registers with
      top := start.stack.top - 1, pending := start.pending + 1 } ∧ 0 < start.stack.top ∧
      ∀ address, address ≠ start.stack.top →
        after.stack.read address = start.stack.read address := by
  rcases run_bind_ok h with ⟨⟨⟩, between, hwrite, h⟩
  cases hwrite
  have hregisters := start.registers_assign (.slot start.stack.top) cell
  have htop : (start.assign (.slot start.stack.top) cell).stack.top = start.stack.top :=
    congrArg Registers.top hregisters
  have hpending : (start.assign (.slot start.stack.top) cell).pending = start.pending :=
    congrArg Registers.pending hregisters
  rcases run_lower_ok h with ⟨hpos, rfl⟩
  simp only [htop, hpending] at hpos ⊢
  refine ⟨?_, hpos, ?_⟩
  · rw [← hregisters]
    rfl
  · intro address hne
    exact start.read_assign_of_ne _ fun heq => hne (Place.slot.inj heq).symm

/-- A pushed argument lies right above the new top. -/
theorem run_pushArgument_read {cell : Cell} {start after : State}
    (htop : start.stack.top < start.stack.size)
    (h : (pushArgument cell).run start = .ok () after) :
    after.stack.read start.stack.top = cell := by
  rcases run_bind_ok h with ⟨⟨⟩, between, hwrite, h⟩
  cases hwrite
  rcases run_lower_ok h with ⟨-, rfl⟩
  change (start.assign (.slot start.stack.top) cell).stack.read start.stack.top = cell
  rw [State.assign, State.read_overwrite_self]
  rwa [State.stack_checkDefined]

/-- What entering a function changes: the frame, the top, and the count of arguments. -/
theorem run_enter_ok {name : String} {localSize : Nat} {start after : State}
    (h : (enter name localSize).run start = .ok () after) :
    after.registers = { start.registers with
      frame := start.stack.top, top := start.stack.top - localSize, pending := 0 } ∧
      localSize ≤ start.stack.top ∧
      ∀ address, after.stack.read address = start.stack.read address := by
  rcases run_bind_ok h with ⟨⟨⟩, between, hopen, h⟩
  cases hopen
  rcases run_bind_ok h with ⟨⟨⟩, between, hreserve, h⟩
  cases h
  rcases run_updateStack_ok hreserve with ⟨stack, hstack, rfl⟩
  rcases (Stack.reserve_yields _ _).ok hstack with ⟨hle, rfl⟩
  exact ⟨rfl, hle, fun _ => rfl⟩

/-! ## Leaving -/

/-- The environment of a call is read back from the frame that the call opened. -/
theorem environment_of_held {call : Call} {stack : Stack} (hsize : stack.size ≤ 2 ^ 53)
    (hlt : call.frame + 4 < stack.size) (hframe : stack.frame = call.frame)
    (hheld : call.HeldBy stack) (hcallerFrame : call.callerFrame < stack.size)
    (hcallerBase : call.callerBase < stack.size) {target : Nat}
    (htarget : Number.toWord? (Number.ofNat (call.callPc + 1)) = some target) :
    environment stack = .ok ⟨call.callerBase, call.callerFrame, target⟩ := by
  have htop : stack.word call.frame EnvironmentWord.top.offset = .ok call.callerBase :=
    hheld.word_eq hsize hlt .top (hcallerBase.le.trans hsize)
  have hcaller : stack.word call.frame EnvironmentWord.frame.offset = .ok call.callerFrame :=
    hheld.word_eq hsize hlt .frame (hcallerFrame.le.trans hsize)
  have hreturn : stack.word call.frame EnvironmentWord.returnTo.offset = .ok target := by
    have hadd : Stack.addWords call.frame EnvironmentWord.returnTo.offset = call.frame + 3 := by
      apply Nat.mod_eq_of_lt
      have : (2 : Nat) ^ 53 < UInt64.size := by decide
      rw [EnvironmentWord.offset]
      omega
    refine Stack.word_of_read (by omega) ?_ htarget
    rw [hadd]
    exact hheld .returnTo
  simp only [environment, Stack.saved, hframe, htop, hreturn, hcaller, bind, Except.bind]
  rw [if_pos ⟨hcallerBase, hcallerFrame⟩]
  rfl

/-- What an environment restores is what its words say, and lies in the stack. -/
theorem environment_yields (stack : Stack) :
    Yields (environment stack) fun environment =>
      (stack.saved .top = .ok environment.top ∧ stack.saved .returnTo = .ok environment.returnTo ∧
        stack.saved .frame = .ok environment.frame) ∧
      environment.top < stack.size ∧ environment.frame < stack.size := by
  refine (stack.word_yields _ _).self.bind fun top htop => ?_
  refine (stack.word_yields _ _).self.bind fun returnTo hreturn => ?_
  refine (stack.word_yields _ _).self.bind fun frame hframe => ?_
  split
  · rename_i h
    exact ⟨⟨htop.1, hreturn.1, hframe.1⟩, h⟩
  · exact Yields.throw fun _ => nofun

/-- What leaving a frame restores: both pointers of the caller.  The cells above the top of the
caller are left alone. -/
structure Restores (call : Call) (start after : State) : Prop where
  registers_eq : after.registers = { start.registers with
    top := call.callerBase, frame := call.callerFrame }
  read_of_lt : ∀ address, call.callerBase < address →
    after.stack.read address = start.stack.read address

/-- Leaving the frame of a call restores the caller and goes on after the call. -/
theorem leave_restores {call : Call} {start after : State} {target : Nat}
    (hsize : start.stack.size ≤ 2 ^ 53) (hlt : call.frame + 4 < start.stack.size)
    (hframe : start.stack.frame = call.frame) (hheld : call.HeldBy start.stack)
    (hcallerFrame : call.callerFrame < start.stack.size)
    (hcallerBase : call.callerBase < start.stack.size) (hrun : leave.run start = .ok target after) :
    Restores call start after ∧ (call.callPc + 1 ≤ 2 ^ 53 → target = call.callPc + 1) := by
  rcases run_bind_ok hrun with ⟨environment, between, hdecide, h⟩
  rcases run_decide_ok hdecide with ⟨henvironment, rfl⟩
  rcases run_bind_ok h with ⟨⟨⟩, between', hrestore, h⟩
  cases hrestore
  cases h
  -- The frame is the one that the call opened, so its words are those of the call.
  obtain ⟨returnTo, hreturnTo⟩ := Number.exists_toWord?_ofNat (call.callPc + 1)
  cases henvironment.symm.trans
    (environment_of_held hsize hlt hframe hheld hcallerFrame hcallerBase hreturnTo)
  refine ⟨⟨?_, fun address haddress => ?_⟩, fun hpc => ?_⟩
  · exact (State.registers_clear _ _ _).trans rfl
  · exact State.read_clear_of_lt _ (.inr haddress)
  · exact Option.some.inj (hreturnTo.symm.trans (Number.toWord?_ofNat hpc))

/-! ## Library calls -/

theorem stack_stable (stack : Stack) (registers : Registers) :
    State.Stable fun state => state.stack = stack ∧ state.registers = registers where
  report _ _ h := h
  console _ _ h := h
  answer _ _ _ h := h
  table state entries _ h := by
    refine ⟨?_, ?_⟩
    · rw [State.stack_overwrite_result, State.stack_createTable, h.1]
    · rw [State.registers_overwrite, State.registers_createTable, h.2]

/-- A standard function leaves the stack alone. -/
theorem run_standard_ok {name : String} {function : Exec Unit}
    (hfind : Library.standard.find? name = some function) {start after : State}
    (h : function.run start = .ok () after) :
    after.stack = start.stack ∧ after.registers = start.registers := by
  have hkeeps := Library.standard_keeps (stack_stable start.stack start.registers) hfind
  exact hkeeps.ok ⟨rfl, rfl⟩ h

/-- Whether a function leaves the stack and the registers alone when it succeeds: it reads its
arguments and sets the return register, and may use the heap and the streams. -/
def LeavesStack (function : Exec Unit) : Prop :=
  ∀ start after, function.run start = .ok () after →
    after.stack = start.stack ∧ after.registers = start.registers

/-- What a library function finds when it starts: a frame of its own, whose environment is that of
the call, and nil in the return register. -/
def prepare (name : String) : Exec Unit := do
  modify fun state => state.report (.callsLibrary name state.pending)
  saveEnvironment
  openFrame
  setResult .nil

/-- A call of a library function prepares a frame, runs the function in it and leaves the frame. -/
theorem callLibrary_eq (name : String) (function : Exec Unit) :
    callLibrary name function = (do prepare name; function; leave) := by
  simp only [callLibrary, prepare, bind_assoc]

structure Prepares (start after : State) : Prop where
  room : Stack.environmentSize ≤ start.stack.top
  registers_eq : after.registers = { start.registers with
    top := start.call.frame, frame := start.call.frame, pending := 0 }
  held : start.call.HeldBy after.stack
  read_of_lt : ∀ address, start.stack.top < address →
    after.stack.read address = start.stack.read address
  result_eq : after.result = .nil

/-- The function finds a frame of its own above which the environment is saved. -/
theorem prepare_prepares {name : String} {start after : State}
    (htop : start.stack.top < start.stack.size) (hrun : (prepare name).run start = .ok () after) :
    Prepares start after := by
  rcases run_bind_ok hrun with ⟨⟨⟩, s₁, hreport, h⟩
  cases hreport
  rcases run_bind_ok h with ⟨⟨⟩, s₂, hsave, h⟩
  have hsaves : Saves start s₂ := Saves.of_report (saveEnvironment_saves htop hsave)
  rcases run_bind_ok h with ⟨⟨⟩, s₃, hopen, hnil⟩
  cases hopen
  cases hnil
  have hregisters := hsaves.registers_eq
  simp only [State.registers, Registers.mk.injEq] at hregisters
  rcases hregisters with ⟨hsize, hglobals, htop₂, -, hpc, -, hfinished⟩
  refine ⟨hsaves.room, ?_, hsaves.held, hsaves.read_of_lt, rfl⟩
  rw [State.registers_overwrite]
  simp only [State.registers, Registers.mk.injEq]
  exact ⟨hsize, hglobals, htop₂, htop₂, hpc, trivial, hfinished⟩

/-- A function that leaves the stack alone leaves the environment of the call in its frame. -/
theorem Prepares.environment_eq {start prepared : State} (h : Prepares start prepared)
    (hsize : start.stack.size ≤ 2 ^ 53) (hframe : start.stack.frame < start.stack.size)
    (hbase : start.stack.top + start.pending < start.stack.size) {target : Nat}
    (htarget : Number.toWord? (Number.ofNat (start.pc + 1)) = some target) :
    environment prepared.stack =
      .ok ⟨start.stack.top + start.pending, start.stack.frame, target⟩ := by
  have hsize' : prepared.stack.size = start.stack.size := congrArg Registers.size h.registers_eq
  have hlt : start.call.frame + 4 < prepared.stack.size := by
    have hroom := h.room
    rw [start.frame_call, hsize']
    simp only [Stack.environmentSize] at hroom
    omega
  exact environment_of_held (hsize' ▸ hsize) hlt (congrArg Registers.frame h.registers_eq) h.held
    (hsize' ▸ hframe) (hsize' ▸ hbase) htarget

/-- Leaving reads the environment first, and cannot fail after that. -/
theorem run_leave (start : State) : leave.run start =
    match environment start.stack with
    | .ok environment => .ok environment.returnTo (restore start environment)
    | .error fault => .error fault start := by
  change EStateM.run (ofExcept (environment start.stack) >>= fun environment => do
    modify fun state => restore state environment
    return environment.returnTo) start = _
  cases environment start.stack <;> rfl

/-- A call of a function that leaves the stack alone cannot fail after the function has answered. -/
theorem run_callLibrary {name : String} {function : Exec Unit} (hfunction : LeavesStack function)
    {start prepared answered : State} (hprepare : (prepare name).run start = .ok () prepared)
    (hanswer : function.run prepared = .ok () answered) (hsize : start.stack.size ≤ 2 ^ 53)
    (hframe : start.stack.frame < start.stack.size)
    (hbase : start.stack.top + start.pending < start.stack.size) {target : Nat}
    (htarget : Number.toWord? (Number.ofNat (start.pc + 1)) = some target) :
    (callLibrary name function).run start = .ok target (restore answered
      ⟨start.stack.top + start.pending, start.stack.frame, target⟩) := by
  have htop := Nat.lt_of_le_of_lt (Nat.le_add_right _ _) hbase
  have henvironment := (prepare_prepares htop hprepare).environment_eq hsize hframe hbase htarget
  rw [← (hfunction _ _ hanswer).1] at henvironment
  rw [callLibrary_eq, run_bind_of_ok hprepare, run_bind_of_ok hanswer, run_leave, henvironment]

/-- What a call restores after its function has answered: the frame that made it, without pending
arguments.  The cells above the base below which these were pushed are left alone. -/
theorem Prepares.restores {start prepared answered : State} (h : Prepares start prepared)
    (hstack : answered.stack = prepared.stack)
    (hregisters : answered.registers = prepared.registers) (target : Nat) :
    (restore answered ⟨start.stack.top + start.pending, start.stack.frame, target⟩).registers =
        { start.registers with top := start.stack.top + start.pending, pending := 0 } ∧
      ∀ address, start.stack.top + start.pending < address →
        (restore answered ⟨start.stack.top + start.pending, start.stack.frame,
          target⟩).stack.read address = start.stack.read address := by
  have hprepared := hregisters.trans h.registers_eq
  simp only [State.registers, Registers.mk.injEq] at hprepared
  rcases hprepared with ⟨hsize, hglobals, -, -, hpc, hpending, hfinished⟩
  refine ⟨?_, fun address haddress => ?_⟩
  · rw [restore, State.registers_clear]
    simp only [State.registers, Registers.mk.injEq]
    exact ⟨hsize, hglobals, trivial, trivial, hpc, hpending, hfinished⟩
  · rw [restore, State.read_clear_of_lt _ (.inr haddress)]
    change answered.stack.read address = _
    rw [hstack]
    exact h.read_of_lt address (Nat.lt_of_le_of_lt (Nat.le_add_right _ _) haddress)

/-- A call of a function that leaves the stack alone ends in the frame that made it, without pending
arguments, and leaves alone the cells above the base below which they were pushed. -/
theorem callLibrary_restores {name : String} {function : Exec Unit}
    (hfunction : LeavesStack function) {start after : State} {target : Nat}
    (hsize : start.stack.size ≤ 2 ^ 53) (hframe : start.stack.frame < start.stack.size)
    (hbase : start.stack.top + start.pending < start.stack.size)
    (hrun : (callLibrary name function).run start = .ok target after) :
    after.registers = { start.registers with
      top := start.stack.top + start.pending, pending := 0 } ∧
      ∀ address, start.stack.top + start.pending < address →
        after.stack.read address = start.stack.read address := by
  have hsplit := hrun
  rw [callLibrary_eq] at hsplit
  rcases run_bind_ok hsplit with ⟨⟨⟩, prepared, hprepare, h⟩
  rcases run_bind_ok h with ⟨⟨⟩, answered, hanswer, -⟩
  obtain ⟨target', htarget⟩ := Number.exists_toWord?_ofNat (start.pc + 1)
  cases hrun.symm.trans
    (run_callLibrary hfunction hprepare hanswer hsize hframe hbase htarget)
  have htop := Nat.lt_of_le_of_lt (Nat.le_add_right _ _) hbase
  rcases hfunction _ _ hanswer with ⟨hstack, hregisters⟩
  exact (prepare_prepares htop hprepare).restores hstack hregisters target

end Exec

def Library.LeavesStacks (library : Library) : Prop :=
  ∀ name function, library.find? name = some function → function.LeavesStack

/-- The standard functions leave the stack alone. -/
theorem Library.standard_leavesStacks : Library.standard.LeavesStacks :=
  fun _ _ hfind _ _ hrun => Exec.run_standard_ok hfind hrun

end CellMachine
