import RiscvBoard.Proofs.Machine.AtomicOperations
import RiscvBoard.Proofs.Machine.BoundedRuns

/-!
The word through which the guest ends the run. A step ends the run exactly if its instruction
completes a store whose first byte lies at the physical address of this word, and the value that it
stores is not zero; this value is the exit code. A run halts with a code exactly if it comes to such
a step.
-/

set_option autoImplicit false

namespace RiscvBoard.Machine

structure SameExit (m m' : Machine) : Prop where
  tohost : m'.tohost = m.tohost
  exitCode : m'.exitCode = m.exitCode

namespace SameExit

variable {m m₁ m₂ : Machine}

private theorem refl (m : Machine) : SameExit m m :=
  ⟨rfl, rfl⟩

private theorem trans (first : SameExit m m₁) (second : SameExit m₁ m₂) : SameExit m m₂ :=
  ⟨second.tohost.trans first.tohost, second.exitCode.trans first.exitCode⟩

private theorem of_undisturbed (same : Undisturbed m m₁) : SameExit m m₁ :=
  ⟨same.tohost, same.exitCode⟩

end SameExit

private theorem isQuietFrame_sameExit : IsQuietFrame SameExit where
  refl := .refl
  trans := .trans
  unchanged _ _ _ := ⟨rfl, rfl⟩
  translate vaddr kind _ m := (ends_translate vaddr kind m).mono
    (fun _ _ same => .of_undisturbed same) (fun _ _ failed => .of_undisturbed failed.1)
  loadPhys paddr vaddr w kind m := by
    unfold Ends Machine.loadPhys
    cases Bus.load paddr w m.bus <;> exact ⟨rfl, rfl⟩

/-! ### Stores -/

/-- The store of an instruction, if it comes to it: the physical address of its first byte, its
width, and its value. -/
inductive Stores (m : Machine) : Instr → UInt64 → Width → UInt64 → Prop where
  | store {width : Width} {rs1 rs2 : Reg} {off : BitVec 12} {paddr : UInt64} {m₁ : Machine}
    (translated : translate (m.xlen.truncate (m.hart.read rs1 + Instr.widen off)) .store m =
      .ok paddr m₁) :
    Stores m (.store width rs1 rs2 off) paddr width (m.hart.read rs2)
  /-- A store-conditional stores where its own address is reserved. -/
  | conditional {width : AtomicWidth} {rd rs1 rs2 : Reg} {vaddr paddr : UInt64} {m₁ : Machine}
    (located : atomicAddr m.hart.pc rs1 width .store m = .ok (vaddr, paddr) m₁)
    (held : m.reservation = some paddr) :
    Stores m (.sc width rd rs1 rs2) paddr width.width (m.hart.read rs2)
  | operation {op : AmoOp} {width : AtomicWidth} {rd rs1 rs2 : Reg}
    {vaddr paddr loaded : UInt64} {m₁ : Machine} {bus : Bus}
    (located : atomicAddr m.hart.pc rs1 width .store m = .ok (vaddr, paddr) m₁)
    (loads : Bus.load paddr width.width m₁.bus = .ok loaded bus) :
    Stores m (.amo op width rd rs1 rs2) paddr width.width
      (op.eval width (width.extend loaded) (m.hart.read rs2))

section

variable {m m₁ m' : Machine} {i : Instr} {paddr other value value' : UInt64} {w v : Width}

private theorem Stores.unique (first : m.Stores i paddr w value)
    (second : m.Stores i other v value') : other = paddr ∧ v = w ∧ value' = value := by
  cases first with
  | store translated =>
    cases second with
    | store again =>
      rw [translated] at again
      obtain ⟨rfl, -⟩ := EStateM.Result.ok.inj again
      exact ⟨rfl, rfl, rfl⟩
  | conditional located held =>
    cases second with
    | conditional again held =>
      rw [located] at again
      obtain ⟨same, -⟩ := EStateM.Result.ok.inj again
      exact ⟨(Prod.mk.inj same).2.symm, rfl, rfl⟩
  | operation located loads =>
    cases second with
    | operation again reloads =>
      rw [located] at again
      obtain ⟨same, rfl⟩ := EStateM.Result.ok.inj again
      obtain ⟨-, rfl⟩ := Prod.mk.inj same
      rw [loads] at reloads
      obtain ⟨rfl, -⟩ := EStateM.Result.ok.inj reloads
      exact ⟨rfl, rfl, rfl⟩

private theorem checkTohost_tohost (m : Machine) (paddr value : UInt64) :
    (m.checkTohost paddr value).tohost = m.tohost := by
  unfold checkTohost
  split <;> rfl

private theorem SameExit.checkTohost (same : SameExit m m') (paddr value : UInt64) :
    SameExit (m.checkTohost paddr value) (m'.checkTohost paddr value) where
  tohost := by rw [checkTohost_tohost, checkTohost_tohost, same.tohost]
  exitCode := by rw [checkTohost_exitCode, checkTohost_exitCode, same.tohost, same.exitCode]

private theorem SameExit.stored (same : SameExit m m') (paddr : UInt64) (w : Width)
    (value : UInt64) :
    SameExit (m.checkTohost paddr (w.truncate value)) (m'.stored paddr w value) := by
  have written : SameExit m { m' with bus := m'.bus.write paddr w (w.truncate value) } :=
    ⟨same.tohost, same.exitCode⟩
  exact written.checkTohost _ _

private theorem writeBytes_sameExit (s : Span) (value : UInt64) (m : Machine) (i n : Nat) :
    SameExit m (writeBytes s value m i n) := by
  induction n generalizing m i with
  | zero => exact .refl m
  | succ n ih =>
    let byte := (value >>> (8 * i).toUInt64) &&& 0xff
    have rest := ih { m with bus := m.bus.write (s.byteAddr i) .byte byte } (i + 1)
    exact ⟨rest.tohost, rest.exitCode⟩

/-- A store that crosses into the next page looks for the exit word once, like one that does not:
with its whole value, at the physical address of its first byte. -/
private theorem store_checksTohost {vaddr : UInt64} (stored : store vaddr w value m = .ok () m') :
    ∃ paddr m₁, translate (m.xlen.truncate vaddr) .store m = .ok paddr m₁ ∧
      SameExit (m.checkTohost paddr (w.truncate value)) m' := by
  have ends := translatesSpan m (m.xlen.truncate vaddr) w .store
  cases translated : translateSpan (m.xlen.truncate vaddr) w .store m with
  | error f m₁ =>
    rw [store_of_fault value translated] at stored
    contradiction
  | ok span m₁ =>
    have same : SameExit m m₁ :=
      .of_undisturbed ((ends_translateSpan (m.xlen.truncate vaddr) w .store m).of_ok translated)
    simp only [store, bind_get, bind_of_ok translated] at stored
    rw [translated] at ends
    cases ends with
    | whole first inside =>
      refine ⟨_, _, first, ?_⟩
      dsimp only at stored
      cases accepted : m₁.bus.acceptsStore _ w with
      | false =>
        rw [storePhys_of_not_accepts accepted] at stored
        contradiction
      | true =>
        rw [storePhys_of_accepts accepted] at stored
        rw [← (EStateM.Result.ok.inj stored).2]
        exact same.stored _ _ _
    | @split p q m₂ _ first crosses second =>
      refine ⟨_, _, first, ?_⟩
      dsimp only at stored
      cases accepted : m₁.acceptsBytes _ w.bytes with
      | false =>
        rw [storeSplit_of_not_accepts accepted] at stored
        contradiction
      | true =>
        rw [storeSplit_of_accepts accepted] at stored
        rw [← (EStateM.Result.ok.inj stored).2]
        exact (same.trans (writeBytes_sameExit _ _ _ _ _)).checkTohost _ _

end

/-! ### Instructions -/

/-- What a completed instruction did to the exit code: it looked for the exit word with its store,
or it has no store and kept the exit code. The exit word stays where it is. -/
inductive Signals (m : Machine) (i : Instr) (m' : Machine) : Prop where
  | stored {paddr value : UInt64} {w : Width} (stores : m.Stores i paddr w value)
    (signals : SameExit (m.checkTohost paddr (w.truncate value)) m')
  | silent (none : ∀ paddr w value, ¬ m.Stores i paddr w value) (same : SameExit m m')

section Instructions

variable {m m' : Machine} {raw : UInt32} {len : UInt64}

private theorem signals_of_store {width : Width} {rs1 rs2 : Reg} {off : BitVec 12}
    (ran : execute (.store width rs1 rs2 off) raw len m = .ok () m') :
    Signals m (.store width rs1 rs2 off) m' := by
  cases stored : store (m.hart.read rs1 + Instr.widen off) width (m.hart.read rs2) m with
  | error f m₁ =>
    have run : execute (.store width rs1 rs2 off) raw len m = _ :=
      bind_of_error (at_of_error stored m.hart.pc) _
    rw [run] at ran
    contradiction
  | ok _ m₁ =>
    have run : execute (.store width rs1 rs2 off) raw len m = _ :=
      bind_of_ok (at_of_ok stored m.hart.pc) _
    rw [run] at ran
    obtain ⟨paddr, m₂, translated, signals⟩ := store_checksTohost stored
    rw [← (EStateM.Result.ok.inj ran).2]
    exact .stored (.store translated) ⟨signals.tohost, signals.exitCode⟩

section Atomic

variable {width : AtomicWidth} {rd rs1 rs2 : Reg}

private theorem signals_of_sc (ran : execute (.sc width rd rs1 rs2) raw len m = .ok () m') :
    Signals m (.sc width rd rs1 rs2) m' := by
  have ends := storesConditionally m width rd rs1 rs2 raw len
  rw [ran] at ends
  cases ends with
  | @lost vaddr paddr m₁ located lost =>
    obtain ⟨undisturbed, devices⟩ := located_undisturbed located
    refine .silent ?_ ⟨undisturbed.tohost, undisturbed.exitCode⟩
    rintro other w value (_ | ⟨again, reserved⟩)
    rw [located] at again
    obtain ⟨-, rfl⟩ := Prod.mk.inj (EStateM.Result.ok.inj again).1
    exact lost (devices.reservation.trans reserved)
  | @stored vaddr paddr m₁ located held accepted =>
    obtain ⟨undisturbed, devices⟩ := located_undisturbed located
    have released : SameExit m { m₁ with reservation := none } :=
      ⟨undisturbed.tohost, undisturbed.exitCode⟩
    have signals := released.stored paddr width.width (m₁.hart.read rs2)
    refine .stored (.conditional located (devices.reservation ▸ held)) ?_
    rw [← undisturbed.hart]
    exact ⟨signals.tohost, signals.exitCode⟩

private theorem signals_of_amo {op : AmoOp}
    (ran : execute (.amo op width rd rs1 rs2) raw len m = .ok () m') :
    Signals m (.amo op width rd rs1 rs2) m' := by
  have ends := operates m op width rd rs1 rs2 raw len
  rw [ran] at ends
  cases ends with
  | @performed vaddr paddr loaded m₁ located accepted loads =>
    obtain ⟨undisturbed, -⟩ := located_undisturbed located
    have read : SameExit m { m₁ with bus := m₁.bus.afterRead paddr width.width } :=
      ⟨undisturbed.tohost, undisturbed.exitCode⟩
    have signals := read.stored paddr width.width
      (op.eval width (width.extend loaded) (m₁.hart.read rs2))
    refine .stored (.operation located loads) ?_
    rw [← undisturbed.hart]
    exact ⟨signals.tohost, signals.exitCode⟩

end Atomic

private theorem execute_signals {i : Instr} (ran : execute i raw len m = .ok () m') :
    Signals m i m' := by
  have quiet := isQuietFrame_sameExit
  have silent (none : ∀ paddr w value, ¬ m.Stores i paddr w value)
      (accesses : AccessFrames SameExit i) : Signals m i m' :=
    .silent none ((quiet.execute accesses raw len m).of_ok ran)
  cases i with
  | store width rs1 rs2 off => exact signals_of_store ran
  | sc width rd rs1 rs2 => exact signals_of_sc ran
  | amo op width rd rs1 rs2 => exact signals_of_amo ran
  | lr width rd rs1 =>
    exact silent (fun _ _ _ => nofun) fun pc =>
      quiet.executeLr (fun _ _ => ⟨rfl, rfl⟩) pc width rd rs1
  | _ => exact silent (fun _ _ _ => nofun) trivial

private theorem Signals.tohost {i : Instr} (signals : Signals m i m') : m'.tohost = m.tohost := by
  cases signals with
  | silent none same => exact same.tohost
  | stored stores signals => exact signals.tohost.trans (checkTohost_tohost m _ _)

/-- A completed instruction sets the code that it stores in the exit word, and no other one. -/
private theorem Signals.exitCode_iff {i : Instr} {paddr : UInt64} (signals : Signals m i m')
    (running : m.exitCode = none) (tohost : m.tohost = some paddr) (code : UInt64) :
    m'.exitCode = some code ↔
      ∃ w value, m.Stores i paddr w value ∧ w.truncate value = code ∧ code ≠ 0 := by
  cases signals with
  | silent none same =>
    rw [same.exitCode, running]
    refine iff_of_false nofun ?_
    rintro ⟨w, value, stores, -⟩
    exact none _ _ _ stores
  | @stored other value w stores signals =>
    rw [signals.exitCode, checkTohost_exitCode, tohost, running]
    constructor
    · intro set
      split at set
      next hit =>
        obtain rfl := Option.some.inj hit.1
        obtain rfl := Option.some.inj set
        exact ⟨w, value, stores, rfl, hit.2⟩
      next => contradiction
    · rintro ⟨w, value, again, rfl, nonzero⟩
      obtain ⟨rfl, rfl, rfl⟩ := stores.unique again
      rw [if_pos ⟨rfl, nonzero⟩]

end Instructions

/-! ### Steps -/

/-- The next step completes an instruction that stores a nonzero code at an address. -/
inductive StoresCode (m : Machine) (paddr code : UInt64) : Prop where
  | completed {i : Instr} {fetched : Fetched} {m₁ m₂ : Machine} {w : Width} {value : UInt64}
    (executes : m.executing? = some (i, fetched, m₁)) (stores : m₁.Stores i paddr w value)
    (ran : execute i fetched.raw fetched.length m₁ = .ok () m₂)
    (truncated : w.truncate value = code) (nonzero : code ≠ 0)

section Steps

variable {m m₁ m₂ : Machine} {i : Instr} {fetched : Fetched} {t : Trap}

private theorem begun_sameExit (m : Machine) : SameExit m m.begun :=
  ⟨m.begun_tohost, m.begun_exitCode⟩

private theorem sameExit_of_trapped (stepped : step m = trapped t m₁) :
    SameExit m₁ m.afterStep := by
  rw [afterStep, stepped]
  obtain taken | ⟨f, failed⟩ := trapped_cases t m₁
  · rw [taken]
    exact ⟨rfl, rfl⟩
  · rw [failed]
    exact .refl m₁

private theorem sameExit_of_idle (idle : m.executing? = none) : SameExit m m.afterStep := by
  obtain ⟨reason, stepped⟩ | ⟨t, m₁, same, stepped⟩ :=
    step_of_idle isQuietFrame_sameExit.toIsTranslationFrame idle
  · rw [afterStep, stepped]
    exact .refl m
  · exact (m.begun_sameExit.trans same).trans (sameExit_of_trapped stepped)

section Executing

variable (executes : m.executing? = some (i, fetched, m₁))
include executes

private theorem executing_sameExit : SameExit m m₁ :=
  m.begun_sameExit.trans (.of_undisturbed (executing_same executes).1)

private theorem sameExit_of_failed (ran : execute i fetched.raw fetched.length m₁ = .error t m₂) :
    SameExit m m.afterStep := by
  have aborted := (ends_execute i fetched.raw fetched.length m₁).of_error ran
  exact ((executing_sameExit executes).trans (.of_undisturbed aborted.undisturbed)).trans
    (sameExit_of_trapped (step_of_failed executes ran))

private theorem afterStep_of_completed (ran : execute i fetched.raw fetched.length m₁ = .ok () m₂) :
    m.afterStep = m₂.retire := by
  obtain ⟨outcome, stepped, -⟩ := step_of_completed executes ran
  rw [afterStep, stepped]

private theorem storesCode_iff {paddr code : UInt64} : m.StoresCode paddr code ↔
    (∃ m₂, execute i fetched.raw fetched.length m₁ = .ok () m₂) ∧
      ∃ w value, m₁.Stores i paddr w value ∧ w.truncate value = code ∧ code ≠ 0 := by
  constructor
  · rintro ⟨again, stores, ran, truncated, nonzero⟩
    rw [executes] at again
    cases again
    exact ⟨⟨_, ran⟩, _, _, stores, truncated, nonzero⟩
  · rintro ⟨⟨m₂, ran⟩, w, value, stores, truncated, nonzero⟩
    exact .completed executes stores ran truncated nonzero

end Executing

theorem afterStep_tohost (m : Machine) : m.afterStep.tohost = m.tohost := by
  cases executes : m.executing? with
  | none => exact (sameExit_of_idle executes).tohost
  | some found =>
    obtain ⟨i, fetched, m₁⟩ := found
    cases ran : execute i fetched.raw fetched.length m₁ with
    | error t m₂ => exact (sameExit_of_failed executes ran).tohost
    | ok _ m₂ =>
      rw [afterStep_of_completed executes ran, retire_tohost, (execute_signals ran).tohost,
        (executing_sameExit executes).tohost]

theorem afterStep_exitCode_of_unset (unset : m.tohost = none) :
    m.afterStep.exitCode = m.exitCode := by
  cases executes : m.executing? with
  | none => exact (sameExit_of_idle executes).exitCode
  | some found =>
    obtain ⟨i, fetched, m₁⟩ := found
    have before := executing_sameExit executes
    cases ran : execute i fetched.raw fetched.length m₁ with
    | error t m₂ => exact (sameExit_of_failed executes ran).exitCode
    | ok _ m₂ =>
      rw [afterStep_of_completed executes ran, retire_exitCode, ← before.exitCode]
      cases execute_signals ran with
      | silent none same => exact same.exitCode
      | stored stores signals =>
        rw [signals.exitCode, checkTohost_exitCode, before.tohost, unset, if_neg nofun]

variable (running : m.exitCode = none) {paddr : UInt64} (tohost : m.tohost = some paddr)
include running tohost

private theorem afterStep_exitCode_iff (code : UInt64) :
    m.afterStep.exitCode = some code ↔ m.StoresCode paddr code := by
  cases executes : m.executing? with
  | none =>
    rw [(sameExit_of_idle executes).exitCode, running]
    refine iff_of_false nofun ?_
    rintro ⟨again, -⟩
    rw [executes] at again
    contradiction
  | some found =>
    obtain ⟨i, fetched, m₁⟩ := found
    have same := executing_sameExit executes
    rw [storesCode_iff executes]
    cases ran : execute i fetched.raw fetched.length m₁ with
    | error t m₂ =>
      rw [(sameExit_of_failed executes ran).exitCode, running]
      refine iff_of_false nofun ?_
      rintro ⟨⟨m₂, completed⟩, -⟩
      contradiction
    | ok _ m₂ =>
      have completes : ∃ m₃, EStateM.Result.ok () m₂ = (.ok () m₃ : EStateM.Result Trap _ _) :=
        ⟨m₂, rfl⟩
      rw [afterStep_of_completed executes ran, retire_exitCode, and_iff_right completes]
      exact (execute_signals ran).exitCode_iff (same.exitCode.trans running)
        (same.tohost.trans tohost) code

private theorem step_of_storesCode {code : UInt64} (stores : m.StoresCode paddr code) :
    step m = .ok (.halted ⟨code⟩) m.afterStep := by
  have set := (afterStep_exitCode_iff running tohost code).2 stores
  obtain ⟨executes, -, ran, -, -⟩ := stores
  rw [afterStep_of_completed executes ran] at set ⊢
  rw [step_of_executing executes, ran]
  simp only [conclude, haltReason?, set, Option.map_some]

private theorem afterStep_exitCode_of_not_halted
    (goesOn : ∀ code, step m ≠ .ok (.halted ⟨code⟩) m.afterStep) : m.afterStep.exitCode = none := by
  rw [Option.eq_none_iff_forall_ne_some]
  intro code left
  have stores := (afterStep_exitCode_iff running tohost code).1 left
  exact goesOn code (step_of_storesCode running tohost stores)

end Steps

/-- The exit code of a machine that runs is set by stores in its exit word and by nothing else: a
step sets a code exactly if its instruction completes a store whose first byte lies at the physical
address of the exit word and whose value, cut to the width of the store, is this code and not zero.
Such a step returns the code. A step that goes on, is trapped or fails sets none, and neither does
what the devices write. -/
theorem exitCode_set_by_stores {m : Machine} {paddr : UInt64} (running : m.exitCode = none)
    (tohost : m.tohost = some paddr) :
    (∀ code, m.afterStep.exitCode = some code ↔ m.StoresCode paddr code) ∧
    (∀ code, m.StoresCode paddr code → step m = .ok (.halted ⟨code⟩) m.afterStep) ∧
    (∀ outcome m', step m = .ok outcome m' → (∀ reason, outcome ≠ .halted reason) →
      m'.exitCode = none) ∧
    (∀ f m', step m = .error f m' → m'.exitCode = none) ∧
    m.begun.exitCode = none := by
  have unset := afterStep_exitCode_of_not_halted running tohost
  refine ⟨afterStep_exitCode_iff running tohost, fun _ => step_of_storesCode running tohost, ?_, ?_,
    m.begun_exitCode.trans running⟩
  · intro outcome m' stepped goesOn
    have after : m.afterStep = m' := by rw [afterStep, stepped]
    rw [after] at unset
    refine unset fun code halted => ?_
    exact goesOn _ (EStateM.Result.ok.inj (stepped.symm.trans halted)).1
  · intro f m' stepped
    have after : m.afterStep = m' := by rw [afterStep, stepped]
    rw [after] at unset
    refine unset fun code halted => ?_
    rw [stepped] at halted
    contradiction

def withCrossingExit : Machine :=
  let m := withCode #[0x23, 0xa0, 0x20, 0x00]
  { (m.setReg 1 0x2000ffe).setReg 2 0x12345 with tohost := some 0x2000ffe }

/-- The code is the whole word, though its bytes are stored one after the other. -/
theorem exitCode_set_by_stores_crossing :
    withCrossingExit.exitCode = none ∧ withCrossingExit.tohost = some 0x2000ffe ∧
      withCrossingExit.StoresCode 0x2000ffe 0x12345 ∧
      step withCrossingExit = .ok (.halted ⟨0x12345⟩) withCrossingExit.afterStep := by
  have left : withCrossingExit.afterStep.exitCode = some 0x12345 := by decide +kernel
  obtain ⟨set, halts, -⟩ := exitCode_set_by_stores (m := withCrossingExit) rfl rfl
  have stores := (set 0x12345).1 left
  exact ⟨rfl, rfl, stores, halts _ stores⟩

/-! ### Runs -/

section Runs

variable {m m₁ m' : Machine} {paddr : UInt64}

private theorem exit_of_continues (first : Continues m m₁) (running : m.exitCode = none)
    (tohost : m.tohost = some paddr) : m₁.exitCode = none ∧ m₁.tohost = some paddr := by
  obtain ⟨outcome, stepped, goesOn⟩ := first
  have after : m.afterStep = m₁ := by rw [afterStep, stepped]
  rw [← after, afterStep_tohost]
  refine ⟨afterStep_exitCode_of_not_halted running tohost fun code halted => ?_, tohost⟩
  rw [stepped] at halted
  exact goesOn _ (EStateM.Result.ok.inj halted).1

private theorem exit_of_stepsTo {n : Nat} (steps : StepsTo n m m') (running : m.exitCode = none)
    (tohost : m.tohost = some paddr) : m'.exitCode = none ∧ m'.tohost = some paddr := by
  induction steps with
  | none => exact ⟨running, tohost⟩
  | step first rest ih =>
    obtain ⟨running, tohost⟩ := exit_of_continues first running tohost
    exact ih running tohost

private theorem step_eq_halted_iff (running : m.exitCode = none) (tohost : m.tohost = some paddr)
    {code : UInt64} :
    step m = .ok (.halted ⟨code⟩) m' ↔ m.StoresCode paddr code ∧ m' = m.afterStep := by
  constructor
  · intro stepped
    have after : m.afterStep = m' := by rw [afterStep, stepped]
    obtain ⟨other, left, same⟩ := Option.map_eq_some_iff.1 (haltReason?_of_halted stepped)
    obtain rfl := HaltReason.mk.inj same
    rw [← after] at left
    exact ⟨(afterStep_exitCode_iff running tohost other).1 left, after.symm⟩
  · rintro ⟨stores, rfl⟩
    exact step_of_storesCode running tohost stores

/-- A run that has not halted yet halts with a code exactly if, within its budget, it comes to an
instruction that stores this code in the exit word. It stops right after this instruction. -/
theorem run_halts_iff (running : m.exitCode = none) (tohost : m.tohost = some paddr) {n : Nat}
    {code : UInt64} :
    run n m = .ok (some ⟨code⟩) m' ↔
      ∃ k < n, ∃ m₁, StepsTo k m m₁ ∧ m₁.StoresCode paddr code ∧ m' = m₁.afterStep := by
  rw [run_eq_some_iff]
  constructor
  · rintro ⟨k, below, m₁, steps, halted⟩
    obtain ⟨running, tohost⟩ := exit_of_stepsTo steps running tohost
    exact ⟨k, below, m₁, steps, (step_eq_halted_iff running tohost).1 halted⟩
  · rintro ⟨k, below, m₁, steps, stops⟩
    obtain ⟨running, tohost⟩ := exit_of_stepsTo steps running tohost
    exact ⟨k, below, m₁, steps, (step_eq_halted_iff running tohost).2 stops⟩

end Runs

end RiscvBoard.Machine
