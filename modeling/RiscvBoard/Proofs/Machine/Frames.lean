import RiscvBoard.Machine.Step
import RiscvBoard.Proofs.Machine.LoadEffects

/-!
What the parts of a step leave alone, whether they complete or fail. Fetching, decoding and
translating leave the devices and the reservation; of the instructions, only a load-reserved and a
store-conditional touch the reservation.
-/

set_option autoImplicit false

namespace RiscvBoard.Machine

/-- Whether a computation leaves every machine in the given relation to the one before, also when it
fails. -/
def Frames {ε α : Type} (R : Machine → Machine → Prop) (x : EStateM ε Machine α) : Prop :=
  ∀ m, Ends x m (fun _ m' => R m m') (fun _ m' => R m m')

/-- What a relation between machines needs to hold across several parts of a step. -/
structure IsFrame (R : Machine → Machine → Prop) : Prop where
  refl : ∀ m, R m m
  trans : ∀ {m m₁ m₂}, R m m₁ → R m₁ m₂ → R m m₂

theorem access_ends {α : Type} {x : Access α} {m : Machine} {P : Machine → Prop}
    (ends : Ends x m (fun _ => P) (fun _ => P)) (pc : UInt64) :
    Ends (x.at pc) m (fun _ => P) (fun _ => P) := by
  unfold Ends Access.at at *
  cases result : x m with
  | ok a m₁ =>
    rw [result] at ends
    exact ends
  | error f m₁ =>
    rw [result] at ends
    exact ends

namespace Frames

variable {ε α β : Type} {R : Machine → Machine → Prop}

private theorem bind (frame : IsFrame R) {x : EStateM ε Machine α} {f : α → EStateM ε Machine β}
    (first : Frames R x) (rest : ∀ a, Frames R (f a)) : Frames R (x >>= f) := by
  intro m
  refine (first m).bind ?_
  intro a m₁ same
  exact (rest a m₁).mono (fun _ _ next => frame.trans same next)
    (fun _ _ next => frame.trans same next)

private theorem pure (frame : IsFrame R) (a : α) :
    Frames R (Pure.pure a : EStateM ε Machine α) := by
  intro m
  exact frame.refl m

private theorem throw (frame : IsFrame R) (e : ε) : Frames R (throw e : EStateM ε Machine α) := by
  intro m
  exact frame.refl m

private theorem get (frame : IsFrame R) : Frames R (get : EStateM ε Machine Machine) := by
  intro m
  exact frame.refl m

theorem modify {f : Machine → Machine} (change : ∀ m, R m (f m)) :
    Frames R (modify f : EStateM ε Machine PUnit) := by
  intro m
  exact change m

private theorem imp {S : Machine → Machine → Prop} {x : EStateM ε Machine α} (frames : Frames R x)
    (weaker : ∀ m m', R m m' → S m m') : Frames S x := by
  intro m
  exact (frames m).mono (fun _ m' => weaker m m') (fun _ m' => weaker m m')

theorem access {x : Access α} (frames : Frames R x) (pc : UInt64) : Frames R (x.at pc) :=
  fun m => access_ends (frames m) pc

end Frames

/-! ### Translating, fetching and decoding -/

theorem SameDevices.bus {m m' : Machine} (same : SameDevices m m') :
    m'.bus = { m.bus with ram := m'.bus.ram } := by
  dsimp only
  rw [← same.deviceTree, ← same.clint, ← same.virtio, ← same.plic, ← same.uart]

private theorem isFrame_sameDevices : IsFrame SameDevices :=
  ⟨SameDevices.refl, SameDevices.trans⟩

/-- A relation that does not look at the hart and the paging unit, and that a translation keeps
which is not for a store. -/
structure IsTranslationFrame (R : Machine → Machine → Prop) : Prop extends IsFrame R where
  unchanged : ∀ m hart mmu, R m { m with hart, mmu }
  translate : ∀ vaddr kind, kind ≠ .store → Frames R (translate vaddr kind)

namespace IsTranslationFrame

variable {R : Machine → Machine → Prop}

theorem of_devices (frame : IsFrame R) (devices : ∀ {m m'}, SameDevices m m' → R m m') :
    IsTranslationFrame R where
  toIsFrame := frame
  unchanged _ _ _ := devices ⟨⟨rfl, rfl, rfl, rfl⟩, rfl, rfl⟩
  translate vaddr kind _ := Frames.imp (translate_sameDevices vaddr kind) fun _ _ => devices

variable (frame : IsTranslationFrame R)

include frame

private theorem fetchHalf (pc vaddr : UInt64) : Frames R (fetchHalf pc vaddr) := by
  have fetches := frame.translate vaddr .fetch (by decide)
  refine .bind frame.toIsFrame (Frames.access fetches pc) fun paddr => ?_
  refine .bind frame.toIsFrame (.get frame.toIsFrame) fun m => ?_
  cases m.bus.peek paddr .half with
  | ok half => exact .pure frame.toIsFrame _
  | error f => exact .throw frame.toIsFrame _

private theorem fetch (pc : UInt64) : Frames R (fetch pc) := by
  unfold Machine.fetch
  split
  · exact .throw frame.toIsFrame _
  · refine .bind frame.toIsFrame (frame.fetchHalf pc pc) fun low => ?_
    split
    · exact .pure frame.toIsFrame _
    · refine .bind frame.toIsFrame (.get frame.toIsFrame) fun m => ?_
      refine .bind frame.toIsFrame (frame.fetchHalf pc _) fun high => ?_
      exact .pure frame.toIsFrame _

theorem fetchDecode : Frames R fetchDecode := by
  refine .bind frame.toIsFrame (.get frame.toIsFrame) fun m => ?_
  refine .bind frame.toIsFrame (frame.fetch m.hart.pc) fun fetched => ?_
  refine .bind frame.toIsFrame (.get frame.toIsFrame) fun m₁ => ?_
  cases fetched.decode m₁.xlen with
  | ok i => exact .pure frame.toIsFrame _
  | error e => exact .throw frame.toIsFrame _

private theorem translateSpan (vaddr : UInt64) (w : Width) (kind : AccessKind)
    (reads : kind ≠ .store) : Frames R (translateSpan vaddr w kind) := by
  refine .bind frame.toIsFrame (frame.translate vaddr kind reads) fun first => ?_
  split
  · exact .pure frame.toIsFrame _
  · refine .bind frame.toIsFrame (.get frame.toIsFrame) fun m => ?_
    refine .bind frame.toIsFrame (frame.translate _ kind reads) fun second => ?_
    exact .pure frame.toIsFrame _

private theorem atomicAddr (pc : UInt64) (rs1 : Reg) (width : AtomicWidth) (kind : AccessKind)
    (reads : kind ≠ .store) : Frames R (atomicAddr pc rs1 width kind) := by
  refine .bind frame.toIsFrame (.get frame.toIsFrame) fun m => ?_
  dsimp only
  split
  · exact .throw frame.toIsFrame _
  · refine .bind frame.toIsFrame (Frames.access (frame.translate _ kind reads) pc) fun paddr => ?_
    exact .pure frame.toIsFrame _

end IsTranslationFrame

theorem isTranslationFrame_sameDevices : IsTranslationFrame SameDevices :=
  .of_devices isFrame_sameDevices id

theorem frames_atomicAddr (pc : UInt64) (rs1 : Reg) (width : AtomicWidth) (kind : AccessKind) :
    Frames SameDevices (atomicAddr pc rs1 width kind) := by
  have frame := isFrame_sameDevices
  refine .bind frame (.get frame) fun m => ?_
  dsimp only
  split
  · exact .throw frame _
  · exact .bind frame (Frames.access (translate_sameDevices _ kind) pc) fun paddr => .pure frame _

theorem at_of_ok {α : Type} {x : Access α} {a : α} {m m₁ : Machine} (ran : x m = .ok a m₁)
    (pc : UInt64) : x.at pc m = .ok a m₁ := by
  rw [Access.at, ran]

theorem at_of_error {α : Type} {x : Access α} {f : MemFault} {m m₁ : Machine}
    (ran : x m = .error f m₁) (pc : UInt64) : x.at pc m = .error (.ofFault pc f) m₁ := by
  rw [Access.at, ran]

/-! ### Stores -/

theorem checkTohost_bus (m : Machine) (paddr value : UInt64) :
    (m.checkTohost paddr value).bus = m.bus := by
  unfold checkTohost
  split <;> rfl

theorem checkTohost_exitCode (m : Machine) (paddr value : UInt64) :
    (m.checkTohost paddr value).exitCode =
      if m.tohost = some paddr ∧ value ≠ 0 then some value else m.exitCode := by
  unfold checkTohost
  split <;> rfl

/-! ### Instructions -/

/-- A relation that does not look at the hart and the paging unit, and that reading keeps. -/
structure IsQuietFrame (R : Machine → Machine → Prop) : Prop extends IsTranslationFrame R where
  loadPhys : ∀ paddr vaddr w kind, Frames R (loadPhys paddr vaddr w kind)

namespace IsQuietFrame

variable {R : Machine → Machine → Prop} (quiet : IsQuietFrame R)

include quiet

private theorem loadBytes (s : Span) (vaddr : UInt64) (n : Nat) (value : UInt64) :
    Frames R (loadBytes s vaddr n value) := by
  induction n generalizing value with
  | zero => exact .pure quiet.toIsFrame value
  | succ i ih => exact .bind quiet.toIsFrame (quiet.loadPhys _ vaddr .byte .load) fun byte => ih _

private theorem load (vaddr : UInt64) (w : Width) : Frames R (load vaddr w) := by
  refine .bind quiet.toIsFrame (.get quiet.toIsFrame) fun m => ?_
  dsimp only
  refine .bind quiet.toIsFrame (quiet.translateSpan _ w .load (by decide)) fun span => ?_
  cases span.next with
  | none => exact quiet.loadPhys _ _ w .load
  | some next => exact quiet.loadBytes span _ w.bytes 0

theorem writeReg (rd : Reg) (value : UInt64) : Frames R (writeReg rd value) :=
  .modify fun m => quiet.unchanged m _ _

private theorem readReg (r : Reg) : Frames R (readReg r) :=
  .bind quiet.toIsFrame (.get quiet.toIsFrame) fun _ => .pure quiet.toIsFrame _

private theorem dataAddr (rs1 : Reg) (off : BitVec 12) : Frames R (dataAddr rs1 off) :=
  .bind quiet.toIsFrame (quiet.readReg rs1) fun _ => .pure quiet.toIsFrame _

theorem executeLr (reserves : ∀ m reservation, R m { m with reservation }) (pc : UInt64)
    (width : AtomicWidth) (rd rs1 : Reg) : Frames R (executeLr pc width rd rs1) := by
  have frame := quiet.toIsFrame
  refine .bind frame (quiet.atomicAddr pc rs1 width .load (by decide)) fun addrs => ?_
  refine .bind frame (Frames.access (quiet.loadPhys _ _ _ .load) pc) fun value => ?_
  exact .bind frame (.modify fun m => reserves m _) fun _ => quiet.writeReg rd _

private theorem ofCsrResult {α : Type} (illegal : Trap) (result : Except CsrError α) :
    Frames R (ofCsrResult illegal result) := by
  cases result with
  | ok a => exact .pure quiet.toIsFrame a
  | error e => exact .throw quiet.toIsFrame illegal

private theorem readCsr (illegal : Trap) (number : UInt16) : Frames R (readCsr illegal number) :=
  .bind quiet.toIsFrame (.get quiet.toIsFrame) fun _ => quiet.ofCsrResult illegal _

private theorem updateCsr (illegal : Trap) (number : UInt16)
    (change : CsrFile → Except CsrError CsrFile) : Frames R (updateCsr illegal number change) := by
  refine .bind quiet.toIsFrame (.get quiet.toIsFrame) fun m => ?_
  refine .bind quiet.toIsFrame (quiet.ofCsrResult illegal _) fun c => ?_
  refine .bind quiet.toIsFrame (.modify fun m => quiet.unchanged m _ _) fun _ => ?_
  split
  · exact .modify fun m => quiet.unchanged m _ _
  · exact .pure quiet.toIsFrame _

private theorem changeCsr (illegal : Trap) (writes : Bool) (rd : Reg) (old : UInt64)
    (number : UInt16) (change : CsrFile → Except CsrError CsrFile) :
    Frames R
      (if writes then Machine.updateCsr illegal number change >>= fun _ => Machine.writeReg rd old
      else Machine.writeReg rd old) := by
  cases writes with
  | true =>
    exact .bind quiet.toIsFrame (quiet.updateCsr illegal number change) fun _ =>
      quiet.writeReg rd old
  | false => exact quiet.writeReg rd old

private theorem executeCsr (illegal : Trap) (op : CsrOp) (rd : Reg) (number : UInt16)
    (operand : CsrOperand) : Frames R (executeCsr illegal op rd number operand) := by
  have frame := quiet.toIsFrame
  have read := quiet.readCsr illegal number
  unfold Machine.executeCsr
  extract_lets body
  have combined (value : UInt64) (writes : Bool) : Frames R (body (value, writes)) := by
    cases op with
    | write =>
      simp only [body]
      split
      · exact quiet.updateCsr illegal number _
      · exact .bind frame read fun old => quiet.changeCsr illegal true rd old number _
    | set | clear =>
      exact .bind frame read fun old => quiet.changeCsr illegal writes rd old number _
  cases operand with
  | reg rs1 => exact .bind frame (quiet.readReg rs1) fun value => combined value (rs1 != 0)
  | imm value => exact combined (UInt64.ofNat value.toNat) (value != 0)

end IsQuietFrame

def AccessFrames (R : Machine → Machine → Prop) : Instr → Prop
  | .store width _ _ _ => ∀ addr value, Frames R (store addr width value)
  | .lr width rd rs1 => ∀ pc, Frames R (executeLr pc width rd rs1)
  | .sc width rd rs1 rs2 => ∀ pc, Frames R (executeSc pc width rd rs1 rs2)
  | .amo op width rd rs1 rs2 => ∀ pc, Frames R (executeAmo pc op width rd rs1 rs2)
  | _ => True

/-- An instruction leaves what its stores and its use of the reservation leave. -/
theorem IsQuietFrame.execute {R : Machine → Machine → Prop} (quiet : IsQuietFrame R) {i : Instr}
    (accesses : AccessFrames R i) (raw : UInt32) (len : UInt64) : Frames R (execute i raw len) := by
  have frame := quiet.toIsFrame
  refine .bind frame (.get frame) fun m => ?_
  extract_lets h pc next refused goOn
  have goes : Frames R goOn := .modify fun m => quiet.unchanged m _ _
  have refuses : Frames R (throw refused : Exec Unit) := .throw frame refused
  cases compute? h i with
  | some result => exact .bind frame (quiet.writeReg _ _) fun _ => goes
  | none =>
    cases jump? h next i with
    | some result =>
      exact .bind frame (quiet.writeReg _ _) fun _ =>
        .modify fun m => quiet.unchanged m _ _
    | none =>
      cases i with
      | lr width rd rs1 => exact .bind frame (accesses pc) fun _ => goes
      | sc width rd rs1 rs2 => exact .bind frame (accesses pc) fun _ => goes
      | amo op width rd rs1 rs2 => exact .bind frame (accesses pc) fun _ => goes
      | load op rd rs1 off =>
        refine .bind frame (quiet.dataAddr rs1 off) fun addr => ?_
        refine .bind frame (Frames.access (quiet.load addr op.width) pc) fun value => ?_
        exact .bind frame (quiet.writeReg rd _) fun _ => goes
      | store width rs1 rs2 off =>
        refine .bind frame (quiet.dataAddr rs1 off) fun addr => ?_
        refine .bind frame (quiet.readReg rs2) fun value => ?_
        exact .bind frame (Frames.access (accesses addr value) pc) fun _ => goes
      | csr op rd number operand =>
        exact .bind frame (quiet.executeCsr refused op rd _ operand) fun _ => goes
      | ecall | ebreak => exact .throw frame _
      | mret | sret =>
        dsimp only
        split
        · exact refuses
        · exact .modify fun m => quiet.unchanged m _ _
      | wfi =>
        dsimp only
        split
        · exact refuses
        · exact goes
      | sfenceVma rs1 rs2 =>
        dsimp only
        split
        · exact refuses
        · exact .bind frame (.modify fun m => quiet.unchanged m _ _) fun _ => goes
      | _ => exact goes

/-! ### The reservation -/

def SameReservation (m m' : Machine) : Prop :=
  m'.reservation = m.reservation

namespace Spares

theorem loadPhys (paddr vaddr : UInt64) (w : Width) (kind : AccessKind) :
    Frames SameReservation (loadPhys paddr vaddr w kind) := by
  intro m
  unfold Ends Machine.loadPhys
  cases Bus.load paddr w m.bus <;> rfl

private theorem quiet : IsQuietFrame SameReservation where
  toIsTranslationFrame :=
    .of_devices ⟨fun _ => rfl, fun first second => second.trans first⟩ fun same => same.reservation
  loadPhys := loadPhys

theorem checkTohost (m : Machine) (paddr value : UInt64) :
    (m.checkTohost paddr value).reservation = m.reservation := by
  unfold Machine.checkTohost
  split <;> rfl

private theorem storePhys (paddr vaddr : UInt64) (w : Width) (value : UInt64) :
    Frames SameReservation (storePhys paddr vaddr w value) := by
  intro m
  unfold Ends
  cases accepted : m.bus.acceptsStore paddr w with
  | true =>
    rw [storePhys_of_accepts accepted]
    exact checkTohost _ _ _
  | false =>
    rw [storePhys_of_not_accepts accepted]
    rfl

private theorem writeBytes (s : Span) (value : UInt64) (m : Machine) (i n : Nat) :
    (writeBytes s value m i n).reservation = m.reservation := by
  induction n generalizing m i with
  | zero => rfl
  | succ n ih => exact ih _ _

private theorem store (vaddr : UInt64) (w : Width) (value : UInt64) :
    Frames SameReservation (store vaddr w value) := by
  have spans (addr : UInt64) : Frames SameReservation (translateSpan addr w .store) :=
    Frames.imp (translateSpan_sameDevices addr w .store) fun _ _ same => same.reservation
  refine .bind quiet.toIsFrame (.get quiet.toIsFrame) fun m => ?_
  dsimp only
  refine .bind quiet.toIsFrame (spans _) fun span => ?_
  cases span.next with
  | none => exact storePhys _ _ w value
  | some next =>
    intro m₁
    unfold Ends
    dsimp only
    cases accepted : m₁.acceptsBytes span w.bytes with
    | true =>
      rw [storeSplit_of_accepts accepted]
      exact (checkTohost _ _ _).trans (writeBytes span value m₁ 0 w.bytes)
    | false =>
      rw [storeSplit_of_not_accepts accepted]
      rfl

private theorem executeAmo (pc : UInt64) (op : AmoOp) (width : AtomicWidth) (rd rs1 rs2 : Reg) :
    Frames SameReservation (executeAmo pc op width rd rs1 rs2) := by
  have frame := quiet.toIsFrame
  have located := (frames_atomicAddr pc rs1 width .store).imp fun _ _ same => same.reservation
  refine .bind frame located fun addrs => ?_
  refine .bind frame (Frames.access (loadPhys _ _ _ .store) pc) fun loaded => ?_
  refine .bind frame (quiet.readReg rs2) fun src => ?_
  refine .bind frame (Frames.access (storePhys _ _ _ _) pc) fun _ => ?_
  exact quiet.writeReg rd _

end Spares

def usesReservation : Instr → Bool
  | .lr .. | .sc .. => true
  | _ => false

theorem execute_spares (i : Instr) (raw : UInt32) (len : UInt64)
    (other : usesReservation i = false) : Frames SameReservation (execute i raw len) := by
  refine Spares.quiet.execute ?_ raw len
  cases i with
  | lr | sc => contradiction
  | store width rs1 rs2 off => exact fun addr value => Spares.store addr width value
  | amo op width rd rs1 rs2 => exact fun pc => Spares.executeAmo pc op width rd rs1 rs2
  | _ => trivial

end RiscvBoard.Machine
