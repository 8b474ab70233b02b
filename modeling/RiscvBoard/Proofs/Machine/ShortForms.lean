import RiscvBoard.Proofs.Ends
import RiscvBoard.Proofs.Isa.Expansion
import RiscvBoard.Proofs.Machine.Integer

/-!
Short and long forms of an instruction. An instruction knows its own length only as the distance to
the next one: it goes there when it does not jump, and a call keeps that address. Its bits serve
only to report it when it is illegal. So a halfword does what the word of the same instruction does.
-/

set_option autoImplicit false

namespace RiscvBoard

namespace Instr

def link? : Instr → Option Reg
  | jal rd _ | jalr rd _ _ => some rd
  | _ => none

def isReturn : Instr → Bool
  | mret | sret => true
  | _ => false

def fallsThrough (h : Hart) : Instr → Bool
  | branch op rs1 rs2 _ => !op.holds (h.read rs1) (h.read rs2)
  | i => i.link?.isNone && !i.isReturn

end Instr

namespace Hart

private theorem write_zero (h : Hart) (value : UInt64) : h.write 0 value = h :=
  if_pos rfl

private theorem write_at (h : Hart) (pc : UInt64) (r : Reg) (value : UInt64) :
    Hart.write { h with pc := pc } r value = { h.write r value with pc := pc } := by
  unfold Hart.write
  split <;> rfl

end Hart

namespace Machine

/-- Enters the length of an instruction, which started in the state `h` of the hart, where it
counts: in the link register of a call, and in the program counter unless it jumped. -/
def proceed (after : Machine) (i : Instr) (h : Hart) (len : UInt64) : Machine :=
  let next := h.pc + len
  let linked :=
    match i.link? with
    | some rd => after.setReg rd next
    | none => after
  if i.fallsThrough h then linked.setPc next else linked

variable {m : Machine} {i : Instr}

private theorem proceed_of_next (link : i.link? = none) (falls : i.fallsThrough m.hart = true)
    (after : Machine) (len : UInt64) :
    after.proceed i m.hart len = after.setPc (m.hart.pc + len) := by
  simp [proceed, link, falls]

/-- How an instruction ends over all its bits and lengths: always in the same way, and the machine
after it is the same but for the length. -/
inductive LengthFree (i : Instr) (m : Machine) : Prop where
  | completed (after : Machine)
    (ran : ∀ raw len, execute i raw len m = .ok () (after.proceed i m.hart len))
  | trapped (t : Trap) (after : Machine) (ran : ∀ raw len, execute i raw len m = .error t after)
  | illegal (after : Machine) (ran : ∀ raw len,
      execute i raw len m = .error (.ofException (.illegalInstruction raw) m.hart.pc) after)

/-! ### Computations with a trap for refusal -/

def Refuses {α : Type} (x : Trap → Exec α) (m : Machine) : Prop :=
  (∃ a after, ∀ t, x t m = .ok a after) ∨ ∃ after, ∀ t, x t m = .error t after

private theorem Refuses.bind {α β : Type} {x : Trap → Exec α} {f : Trap → α → Exec β}
    (first : Refuses x m) (rest : ∀ a after, Refuses (fun t => f t a) after) :
    Refuses (fun t => x t >>= f t) m := by
  rcases first with ⟨a, after, ran⟩ | ⟨after, ran⟩
  · rcases rest a after with ⟨b, last, done⟩ | ⟨last, done⟩
    · exact .inl ⟨b, last, fun t => (bind_of_ok (ran t) (f t)).trans (done t)⟩
    · exact .inr ⟨last, fun t => (bind_of_ok (ran t) (f t)).trans (done t)⟩
  · exact .inr ⟨after, fun t => bind_of_error (ran t) (f t)⟩

private theorem refuses_writeReg (rd : Reg) (value : UInt64) (m : Machine) :
    Refuses (fun _ => writeReg rd value) m :=
  .inl ⟨(), m.setReg rd value, fun _ => rfl⟩

private theorem refuses_readReg_bind {α : Type} {f : Trap → UInt64 → Exec α} {r : Reg} :
    Refuses (fun t => readReg r >>= f t) m ↔ Refuses (fun t => f t (m.hart.read r)) m := Iff.rfl

private theorem refuses_ofCsrResult {α : Type} (result : Except CsrError α) (m : Machine) :
    Refuses (fun t => ofCsrResult t result) m := by
  cases result with
  | ok a => exact .inl ⟨a, m, fun _ => rfl⟩
  | error e => exact .inr ⟨m, fun _ => rfl⟩

private theorem refuses_readCsr (number : UInt16) (m : Machine) :
    Refuses (fun t => readCsr t number) m :=
  refuses_ofCsrResult (m.hart.csrs.read number) m

private theorem refuses_updateCsr (number : UInt16) (change : CsrFile → Except CsrError CsrFile)
    (m : Machine) : Refuses (fun t => updateCsr t number change) m := by
  refine (refuses_ofCsrResult (change m.hart.csrs) m).bind ?_
  intro c after
  by_cases root : number = Csr.satp.number
  · refine .inl ⟨(), { after.setCsrs c with mmu := after.mmu.flush }, fun _ => ?_⟩
    rw [if_pos root]
    rfl
  · refine .inl ⟨(), after.setCsrs c, fun _ => ?_⟩
    rw [if_neg root]
    rfl

private theorem refuses_change (writes : Bool) (rd : Reg) (old : UInt64) (number : UInt16)
    (change : CsrFile → Except CsrError CsrFile) (m : Machine) :
    Refuses (fun t =>
      if writes then updateCsr t number change >>= fun _ => writeReg rd old
      else writeReg rd old) m := by
  cases writes with
  | true => exact (refuses_updateCsr number change m).bind fun _ => refuses_writeReg rd old
  | false => exact refuses_writeReg rd old m

private theorem refuses_executeCsr (op : CsrOp) (rd : Reg) (number : UInt16) (operand : CsrOperand)
    (m : Machine) : Refuses (fun t => executeCsr t op rd number operand) m := by
  have read := refuses_readCsr number m
  cases op with
  | write =>
    by_cases unread : rd = 0
    · cases operand <;>
        simp only [executeCsr, if_pos unread, pure_bind, refuses_readReg_bind] <;>
        exact refuses_updateCsr number _ m
    · cases operand <;>
        simp only [executeCsr, if_neg unread, pure_bind, refuses_readReg_bind] <;>
        exact read.bind fun old => refuses_change true rd old number _
  | set | clear =>
    cases operand <;> simp only [executeCsr, pure_bind, refuses_readReg_bind] <;>
      exact read.bind fun old => refuses_change _ rd old number _

/-! ### One instruction -/

private theorem LengthFree.of_body {x : Exec Unit} (link : i.link? = none)
    (falls : i.fallsThrough m.hart = true)
    (ran : ∀ raw len, execute i raw len m = (x >>= fun _ =>
      modify fun after => after.setPc (m.hart.pc + len)) m) :
    LengthFree i m := by
  cases done : x m with
  | ok value after =>
    refine .completed after fun raw len => ?_
    rw [ran, proceed_of_next link falls]
    exact bind_of_ok done _
  | error t after =>
    refine .trapped t after fun raw len => ?_
    rw [ran]
    exact bind_of_error done _

private theorem fallsThrough_of_compute? {rd : Reg} {value : UInt64}
    (found : compute? m.hart i = some (rd, value)) :
    i.link? = none ∧ i.fallsThrough m.hart = true := by
  cases i with
  | branch | jal | jalr | mret | sret => contradiction
  | _ => exact ⟨rfl, rfl⟩

private theorem lengthFree_branch (op : BranchOp) (rs1 rs2 : Reg) (off : BitVec 12) (m : Machine) :
    LengthFree (.branch op rs1 rs2 off) m := by
  have computed : compute? m.hart (.branch op rs1 rs2 off) = none := rfl
  by_cases taken : op.holds (m.hart.read rs1) (m.hart.read rs2)
  · have stays : Instr.fallsThrough m.hart (.branch op rs1 rs2 off) = false := by
      rw [Instr.fallsThrough, taken, Bool.not_true]
    refine .completed (m.setPc (m.hart.pc + Instr.widen (Instr.byteOffset off))) fun raw len => ?_
    have jumped : jump? m.hart (m.hart.pc + len) (.branch op rs1 rs2 off) =
        some (m.hart.pc + Instr.widen (Instr.byteOffset off), 0) := by
      rw [jump?, if_pos taken]
    rw [execute_of_jump? computed jumped, Hart.write_zero]
    simp only [proceed, Instr.link?, stays]
    rfl
  · have falls : Instr.fallsThrough m.hart (.branch op rs1 rs2 off) = true := by
      rw [Instr.fallsThrough, Bool.eq_false_iff.2 taken, Bool.not_false]
    refine .completed m fun raw len => ?_
    have passed : jump? m.hart (m.hart.pc + len) (.branch op rs1 rs2 off) =
        some (m.hart.pc + len, 0) := by
      rw [jump?, if_neg taken]
    rw [execute_of_jump? computed passed, Hart.write_zero, proceed_of_next rfl falls]
    rfl

private theorem lengthFree_call {target : UInt64} {rd : Reg} (computed : compute? m.hart i = none)
    (jumped : ∀ next, jump? m.hart next i = some (target, rd)) (link : i.link? = some rd)
    (stays : i.fallsThrough m.hart = false) :
    LengthFree i m := by
  refine .completed (m.setPc target) fun raw len => ?_
  rw [execute_of_jump? computed (jumped _)]
  simp only [proceed, link, stays, setReg, setPc, Hart.write_at]
  rfl

/-- An instruction ends in the same way whatever its bits and its length are, and the machine after
it is the same but for the length. -/
private theorem execute_lengthFree (i : Instr) (m : Machine) :
    LengthFree i m := by
  cases computed : compute? m.hart i with
  | some result =>
    rcases result with ⟨rd, value⟩
    rcases fallsThrough_of_compute? computed with ⟨link, falls⟩
    refine .completed (m.setReg rd value) fun raw len => ?_
    rw [execute_of_compute? computed, proceed_of_next link falls]
    rfl
  | none =>
    cases i with
    | branch op rs1 rs2 off => exact lengthFree_branch op rs1 rs2 off m
    | jal rd off => exact lengthFree_call computed (fun _ => rfl) rfl rfl
    | jalr rd rs1 off => exact lengthFree_call computed (fun _ => rfl) rfl rfl
    | load op rd rs1 off =>
      refine .of_body (x := (load (m.hart.read rs1 + Instr.widen off) op.width).at m.hart.pc >>=
        fun value => writeReg rd (op.extend value)) rfl rfl fun raw len => ?_
      rw [bind_assoc]
      rfl
    | store width rs1 rs2 off =>
      refine .of_body (x := (store (m.hart.read rs1 + Instr.widen off) width (m.hart.read rs2)).at
        m.hart.pc) rfl rfl fun raw len => rfl
    | lr width rd rs1 =>
      exact .of_body (x := executeLr m.hart.pc width rd rs1) rfl rfl fun raw len => rfl
    | sc width rd rs1 rs2 =>
      exact .of_body (x := executeSc m.hart.pc width rd rs1 rs2) rfl rfl fun raw len => rfl
    | amo op width rd rs1 rs2 =>
      exact .of_body (x := executeAmo m.hart.pc op width rd rs1 rs2) rfl rfl fun raw len => rfl
    | csr op rd number operand =>
      rcases refuses_executeCsr op rd ⟨number.setWidth 16⟩ operand m with
        ⟨_, after, ran⟩ | ⟨after, ran⟩
      · refine .completed after fun raw len => ?_
        rw [proceed_of_next rfl rfl]
        exact bind_of_ok (ran _) _
      · exact .illegal after fun raw len => bind_of_error (ran _) _
    | ecall => exact .trapped _ m fun _ _ => rfl
    | ebreak => exact .trapped _ m fun _ _ => rfl
    | mret =>
      by_cases mode : m.hart.csrs.privilege ≠ .machine
      · exact .illegal m fun _ _ => congrFun (if_pos mode) m
      · exact .completed { m with hart := m.hart.machineReturn }
          fun _ _ => congrFun (if_neg mode) m
    | sret =>
      by_cases refused : refusesSupervisor m.hart.csrs Status.tsr
      · exact .illegal m fun _ _ => congrFun (if_pos refused) m
      · exact .completed { m with hart := m.hart.supervisorReturn }
          fun _ _ => congrFun (if_neg refused) m
    | wfi =>
      by_cases refused : refusesSupervisor m.hart.csrs Status.tw
      · exact .illegal m fun _ _ => congrFun (if_pos refused) m
      · exact .completed m fun _ _ => congrFun (if_neg refused) m
    | sfenceVma rs1 rs2 =>
      by_cases refused : refusesSupervisor m.hart.csrs Status.tvm
      · exact .illegal m fun _ _ => congrFun (if_pos refused) m
      · exact .completed { m with mmu := m.mmu.flush } fun _ _ => congrFun (if_neg refused) m
    | fence | fenceI => exact .completed m fun _ _ => rfl
    | _ => contradiction

/-! ### Halfwords and words -/

/-- The results of an instruction in its short and in its long form. Both complete, and the machine
differs in nothing but the length that was entered; or both end in the same trap and in the same
machine, but for the bits of an illegal instruction. -/
inductive SameButLength (i : Instr) (m : Machine) (raw raw' : UInt32) :
    EStateM.Result Trap Machine Unit → EStateM.Result Trap Machine Unit → Prop where
  | completed (after : Machine) :
    SameButLength i m raw raw' (.ok () (after.proceed i m.hart 2))
      (.ok () (after.proceed i m.hart 4))
  | trapped (t : Trap) (after : Machine) :
    SameButLength i m raw raw' (.error t after) (.error t after)
  | illegal (after : Machine) :
    SameButLength i m raw raw' (.error (.ofException (.illegalInstruction raw) m.hart.pc) after)
      (.error (.ofException (.illegalInstruction raw') m.hart.pc) after)

/-- What a halfword abbreviates is decoded from some word; and on every machine, the short form and
the long form of the instruction do the same but for the address of the next instruction. -/
theorem expand_matches_word {xlen : Xlen} {h : BitVec 16} (expanded : Instr.expand xlen h = .ok i) :
    (∃ w, Instr.decode xlen w = .ok i) ∧
    ∀ (m : Machine) (raw raw' : UInt32),
      SameButLength i m raw raw' (execute i raw 2 m) (execute i raw' 4 m) := by
  refine ⟨Instr.exists_decode_of_expand expanded, ?_⟩
  intro m raw raw'
  rcases execute_lengthFree i m with ⟨after, ran⟩ | ⟨t, after, ran⟩ | ⟨after, ran⟩
  · rw [ran, ran]
    exact .completed after
  · rw [ran, ran]
    exact .trapped t after
  · rw [ran, ran]
    exact .illegal after

/-- A call through the register in which it links: the halfword abbreviates a word of the same
instruction, and only the link differs. -/
theorem expand_matches_word_call :
    Instr.expand .rv64 0x9082 = .ok (.jalr 1 1 0) ∧
      Instr.decode .rv64 0x000080e7 = .ok (.jalr 1 1 0) ∧
      ∀ m raw raw', SameButLength (.jalr 1 1 0) m raw raw' (execute (.jalr 1 1 0) raw 2 m)
        (execute (.jalr 1 1 0) raw' 4 m) := by
  have expanded : Instr.expand .rv64 0x9082 = .ok (.jalr 1 1 0) := by rfl
  exact ⟨expanded, by rfl, (expand_matches_word expanded).2⟩

end Machine

end RiscvBoard
