import RiscvBoard.Proofs.Machine.BoundedRuns
import RiscvBoard.Proofs.Machine.Reservation

/-!
What instructions write on the bus. An instruction does the writes of one store at most, each of
them or none. Apart from these it changes only what translating and reading change: the marks in the
page tables, and the devices that react to being read. So any other part of the board is, after an
instruction and after the step that executes it, what the writes make of it.
-/

set_option autoImplicit false

namespace RiscvBoard

/-- A part of the board that is not in guest memory, and that no load changes. -/
structure Bus.IsSteady {α : Type} (part : Bus → α) : Prop where
  ram : ∀ b ram, part { b with ram } = part b
  afterRead : ∀ b addr w, part (b.afterRead addr w) = part b

namespace Machine

/-! ### The writes of an instruction -/

abbrev Writes := Bus × List BusWrite

/-- The writes of a store to a span, unless the board refuses one of them. -/
def spanWrites? (m : Machine) (s : Span) (w : Width) (value : UInt64) : Option Writes :=
  if (s.writes w value).all fun write => m.bus.acceptsStore write.addr write.width then
    some (m.bus, s.writes w value)
  else none

def storeWrites? (m : Machine) (vaddr : UInt64) (w : Width) (value : UInt64) : Option Writes :=
  match translateSpan (m.xlen.truncate vaddr) w .store m with
  | .ok span m₁ => m₁.spanWrites? span w value
  | .error _ _ => none

def conditionalWrites? (m : Machine) (width : AtomicWidth) (rs1 rs2 : Reg) : Option Writes :=
  match atomicAddr m.hart.pc rs1 width .store m with
  | .ok (_, paddr) m₁ =>
    if m₁.reservation = some paddr then
      m₁.spanWrites? ⟨paddr, none⟩ width.width (m₁.hart.read rs2)
    else none
  | .error _ _ => none

def operationWrites? (m : Machine) (op : AmoOp) (width : AtomicWidth) (rs1 rs2 : Reg) :
    Option Writes :=
  match atomicAddr m.hart.pc rs1 width .store m with
  | .ok (vaddr, paddr) m₁ =>
    match loadPhys paddr vaddr width.width .store m₁ with
    | .ok loaded m₂ =>
      m₂.spanWrites? ⟨paddr, none⟩ width.width
        (op.eval width (width.extend loaded) (m₂.hart.read rs2))
    | .error _ _ => none
  | .error _ _ => none

def writes? (m : Machine) : Instr → Option Writes
  | .store width rs1 rs2 off =>
    m.storeWrites? (m.hart.read rs1 + Instr.widen off) width (m.hart.read rs2)
  | .sc width _ rs1 rs2 => m.conditionalWrites? width rs1 rs2
  | .amo op width _ rs1 rs2 => m.operationWrites? op width rs1 rs2
  | _ => none

/-- The writes of the instruction that the next step executes, if there is one. -/
def nextWrites? (m : Machine) : Option Writes :=
  match m.executing? with
  | some (i, _, m₁) => m₁.writes? i
  | none => none

/-! ### What writes make of a part of the board -/

section Part

variable {α : Type} (part : Bus → α)

def KeepsPart (m m' : Machine) : Prop :=
  part m'.bus = part m.bus

inductive DoesWrites : Option Writes → Machine → Machine → Prop
  | nothing {m m' : Machine} (kept : KeepsPart part m m') : DoesWrites none m m'
  | writes {m m' : Machine} {b : Bus} {writes : List BusWrite} (start : part b = part m.bus)
    (stop : part m'.bus = part (writes.foldl Bus.apply b)) : DoesWrites (some (b, writes)) m m'

def EndsWriting {ε β : Type} (x : EStateM ε Machine β) (m : Machine) (writes : Option Writes) :
    Prop :=
  Ends x m (fun _ => DoesWrites part writes m) (fun _ => DoesWrites part writes m)

end Part

section DoesWrites

variable {α : Type} {part : Bus → α} {writes : Option Writes} {m m₁ m₂ : Machine}

private theorem KeepsPart.wrote (first : KeepsPart part m m₁)
    (rest : DoesWrites part writes m₁ m₂) : DoesWrites part writes m m₂ := by
  cases rest with
  | nothing kept => exact .nothing (kept.trans first)
  | writes start stop => exact .writes (start.trans first) stop

private theorem DoesWrites.keepsPart (first : DoesWrites part writes m m₁)
    (rest : KeepsPart part m₁ m₂) : DoesWrites part writes m m₂ := by
  cases first with
  | nothing kept => exact .nothing (rest.trans kept)
  | writes start stop => exact .writes start (rest.trans stop)

namespace EndsWriting

variable {ε β γ : Type} {x : EStateM ε Machine β} {f : β → EStateM ε Machine γ}

private theorem of_frames (keeps : Frames (KeepsPart part) x) (m : Machine) :
    EndsWriting part x m none :=
  (keeps m).mono (fun _ _ => .nothing) (fun _ _ => .nothing)

private theorem bind_of_ok {b : β} (ran : x m = .ok b m₁) (keeps : KeepsPart part m m₁)
    (rest : EndsWriting part (f b) m₁ writes) : EndsWriting part (x >>= f) m writes := by
  rw [EndsWriting, Ends, RiscvBoard.bind_of_ok ran]
  exact Ends.mono rest (fun _ _ => keeps.wrote) (fun _ _ => keeps.wrote)

private theorem bind_of_error {e : ε} (ran : x m = .error e m₁) (keeps : KeepsPart part m m₁) :
    EndsWriting part (x >>= f) m none := by
  rw [EndsWriting, Ends, RiscvBoard.bind_of_error ran]
  exact .nothing keeps

private theorem bind_frames (first : EndsWriting part x m writes)
    (rest : ∀ b, Frames (KeepsPart part) (f b)) : EndsWriting part (x >>= f) m writes :=
  Ends.bind first fun b m₁ wrote =>
    (rest b m₁).mono (fun _ _ => wrote.keepsPart) (fun _ _ => wrote.keepsPart)

private theorem access {x : Access β} (ends : EndsWriting part x m writes) (pc : UInt64) :
    EndsWriting part (x.at pc) m writes :=
  access_ends ends pc

end EndsWriting

end DoesWrites

/-! ### Stores -/

section Stores

variable {m : Machine} {s : Span} {w : Width} {value : UInt64}

private theorem spanWrites?_of_accepted
    (accepted : (s.writes w value).all fun write => m.bus.acceptsStore write.addr write.width) :
    m.spanWrites? s w value = some (m.bus, s.writes w value) :=
  if_pos accepted

private theorem spanWrites?_of_refused
    (refused : ¬ (s.writes w value).all fun write => m.bus.acceptsStore write.addr write.width) :
    m.spanWrites? s w value = none :=
  if_neg refused

private theorem all_writes_of_split (m : Machine) (w : Width) (value : UInt64) {next : UInt64 × Nat}
    (split : s.next = some next) :
    ((s.writes w value).all fun write => m.bus.acceptsStore write.addr write.width) =
      m.acceptsBytes s w.bytes := by
  rw [Span.writes, split, acceptsBytes, List.all_map, List.range_eq_range']
  rfl

variable {α : Type} (part : Bus → α)

private theorem storePhys_writes (m : Machine) (paddr vaddr : UInt64) (w : Width) (value : UInt64) :
    EndsWriting part (storePhys paddr vaddr w value) m (m.spanWrites? ⟨paddr, none⟩ w value) := by
  have whole : ((Span.mk paddr none).writes w value).all (fun write =>
      m.bus.acceptsStore write.addr write.width) = m.bus.acceptsStore paddr w := Bool.and_true _
  unfold EndsWriting Ends
  cases accepted : m.bus.acceptsStore paddr w with
  | true =>
    rw [storePhys_of_accepts accepted, spanWrites?_of_accepted (whole.trans accepted)]
    exact .writes rfl (congrArg part (checkTohost_bus _ _ _))
  | false =>
    rw [storePhys_of_not_accepts accepted, spanWrites?_of_refused (by simp [whole, accepted])]
    exact .nothing rfl

private theorem storeSplit_writes (m : Machine) (vaddr : UInt64) {next : UInt64 × Nat}
    (split : s.next = some next) :
    EndsWriting part (storeSplit s vaddr w value) m (m.spanWrites? s w value) := by
  have whole := all_writes_of_split m w value split
  have listed : s.writes w value = (List.range' 0 w.bytes).map fun i =>
      ⟨s.byteAddr i, .byte, (value >>> (8 * i).toUInt64) &&& 0xff⟩ := by
    rw [Span.writes, split]
  unfold EndsWriting Ends
  cases accepted : m.acceptsBytes s w.bytes with
  | true =>
    rw [storeSplit_of_accepts accepted, spanWrites?_of_accepted (whole.trans accepted)]
    refine .writes rfl (congrArg part ?_)
    rw [checkTohost_bus, writeBytes_bus, ← listed]
  | false =>
    rw [storeSplit_of_not_accepts accepted, spanWrites?_of_refused (by simp [whole, accepted])]
    exact .nothing rfl

end Stores

/-! ### Instructions -/

section Instructions

variable {α : Type} {part : Bus → α} (steady : Bus.IsSteady part)
include steady

private theorem KeepsPart.of_devices {m m' : Machine} (same : SameDevices m m') :
    KeepsPart part m m' := by
  rw [KeepsPart, same.bus, steady.ram]

private theorem isQuietFrame_keepsPart : IsQuietFrame (KeepsPart part) where
  toIsTranslationFrame :=
    .of_devices ⟨fun _ => rfl, fun first second => second.trans first⟩ (KeepsPart.of_devices steady)
  loadPhys paddr vaddr w kind m := by
    unfold Ends
    cases answered : m.bus.answers paddr w with
    | true =>
      obtain ⟨value, loaded⟩ := loadPhys_of_answers answered vaddr kind
      rw [loaded]
      exact steady.afterRead m.bus paddr w
    | false =>
      rw [loadPhys_of_not_answers answered]
      rfl

private theorem store_writes (m : Machine) (vaddr : UInt64) (w : Width) (value : UInt64) :
    EndsWriting part (store vaddr w value) m (m.storeWrites? vaddr w value) := by
  have translates := translateSpan_sameDevices (m.xlen.truncate vaddr) w .store m
  unfold store storeWrites?
  refine .bind_of_ok (b := m) rfl rfl ?_
  cases spanned : translateSpan (m.xlen.truncate vaddr) w .store m with
  | error f m₁ =>
    exact .bind_of_error spanned (.of_devices steady (translates.of_error spanned))
  | ok span m₁ =>
    refine .bind_of_ok spanned (.of_devices steady (translates.of_ok spanned)) ?_
    rcases span with ⟨first, _ | next⟩
    · exact storePhys_writes part m₁ first _ w value
    · exact storeSplit_writes part m₁ _ rfl

private theorem executeSc_writes (m : Machine) (width : AtomicWidth) (rd rs1 rs2 : Reg) :
    EndsWriting part (executeSc m.hart.pc width rd rs1 rs2) m
      (m.conditionalWrites? width rs1 rs2) := by
  have quiet := isQuietFrame_keepsPart steady
  have translates := frames_atomicAddr m.hart.pc rs1 width .store m
  unfold executeSc conditionalWrites?
  cases located : atomicAddr m.hart.pc rs1 width .store m with
  | error t m₁ => exact .bind_of_error located (.of_devices steady (translates.of_error located))
  | ok addrs m₁ =>
    rcases addrs with ⟨vaddr, paddr⟩
    refine .bind_of_ok located (.of_devices steady (translates.of_ok located)) ?_
    by_cases held : m₁.reservation = some paddr
    · refine .bind_of_ok (takeReservation_of_held held) rfl ?_
      simp only [if_pos held]
      refine .bind_of_ok (b := m₁.hart.read rs2) rfl rfl ?_
      have stores := storePhys_writes part { m₁ with reservation := none } paddr vaddr width.width
        (m₁.hart.read rs2)
      exact (stores.access m.hart.pc).bind_frames fun _ => quiet.writeReg rd _
    · refine .bind_of_ok (takeReservation_of_lost held) rfl ?_
      simp only [if_neg held]
      exact .of_frames (quiet.writeReg rd _) _

private theorem executeAmo_writes (m : Machine) (op : AmoOp) (width : AtomicWidth)
    (rd rs1 rs2 : Reg) : EndsWriting part (executeAmo m.hart.pc op width rd rs1 rs2) m
      (m.operationWrites? op width rs1 rs2) := by
  have quiet := isQuietFrame_keepsPart steady
  have translates := frames_atomicAddr m.hart.pc rs1 width .store m
  unfold executeAmo operationWrites?
  cases located : atomicAddr m.hart.pc rs1 width .store m with
  | error t m₁ => exact .bind_of_error located (.of_devices steady (translates.of_error located))
  | ok addrs m₁ =>
    rcases addrs with ⟨vaddr, paddr⟩
    refine .bind_of_ok located (.of_devices steady (translates.of_ok located)) ?_
    have reads := quiet.loadPhys paddr vaddr width.width .store m₁
    dsimp only
    cases loaded : loadPhys paddr vaddr width.width .store m₁ with
    | error f m₂ =>
      exact .bind_of_error (at_of_error loaded m.hart.pc) (reads.of_error loaded)
    | ok value m₂ =>
      refine .bind_of_ok (at_of_ok loaded m.hart.pc) (reads.of_ok loaded) ?_
      refine .bind_of_ok (b := m₂.hart.read rs2) rfl rfl ?_
      refine .bind_frames ?_ fun _ => quiet.writeReg rd _
      exact (storePhys_writes part m₂ paddr vaddr width.width _).access _

private theorem execute_writes (i : Instr) (raw : UInt32) (len : UInt64) (m : Machine) :
    EndsWriting part (execute i raw len) m (m.writes? i) := by
  have quiet := isQuietFrame_keepsPart steady
  have goes : Frames (KeepsPart part)
      (modify fun m' => m'.setPc (m.hart.pc + len) : Exec Unit) := .modify fun _ => rfl
  have keeps (accesses : AccessFrames (KeepsPart part) i) :
      EndsWriting part (execute i raw len) m none :=
    .of_frames (quiet.execute accesses raw len) m
  cases i with
  | store width rs1 rs2 off =>
    have stores := store_writes steady m (m.hart.read rs1 + Instr.widen off) width
      (m.hart.read rs2)
    exact (stores.access m.hart.pc).bind_frames fun _ => goes
  | sc width rd rs1 rs2 =>
    exact (executeSc_writes steady m width rd rs1 rs2).bind_frames fun _ => goes
  | amo op width rd rs1 rs2 =>
    exact (executeAmo_writes steady m op width rd rs1 rs2).bind_frames fun _ => goes
  | lr width rd rs1 =>
    exact keeps fun pc => quiet.executeLr (fun _ _ => rfl) pc width rd rs1
  | _ => exact keeps trivial

/-! ### Steps -/

omit steady in
private theorem trapped_keepsPart (t : Trap) : Frames (KeepsPart part) (trapped t) := by
  intro m
  unfold Ends
  rcases trapped_cases t m with taken | ⟨f, failed⟩
  · rw [taken]
    rfl
  · rw [failed]
    rfl

/-- After time has passed, a step does the writes of its instruction. -/
theorem step_writes {m : Machine} (running : m.haltReason? = none) :
    Ends step m (fun _ => DoesWrites part m.nextWrites? m.begun)
      (fun _ => DoesWrites part m.nextWrites? m.begun) := by
  have quiet := isQuietFrame_keepsPart steady
  unfold nextWrites? Ends
  cases executes : m.executing? with
  | none =>
    rcases step_of_idle quiet.toIsTranslationFrame executes with
      ⟨reason, stepped⟩ | ⟨t, m₁, before, stepped⟩
    · rw [haltReason?_of_halted stepped] at running
      contradiction
    · rw [stepped]
      exact (trapped_keepsPart t m₁).mono (fun _ _ after => .nothing (after.trans before))
        (fun _ _ after => .nothing (after.trans before))
  | some found =>
    rcases found with ⟨i, fetched, m₁⟩
    have before : KeepsPart part m.begun m₁ := executing_frames quiet.toIsTranslationFrame executes
    have wrote := execute_writes steady i fetched.raw fetched.length m₁
    cases ran : execute i fetched.raw fetched.length m₁ with
    | ok _ m₂ =>
      rcases step_of_completed executes ran with ⟨outcome, stepped, -⟩
      have retires : KeepsPart part m₂ m₂.retire := congrArg part m₂.retire_bus
      rw [stepped]
      exact before.wrote ((Ends.of_ok wrote ran).keepsPart retires)
    | error t m₂ =>
      have written := Ends.of_error wrote ran
      rw [step_of_failed executes ran]
      exact (trapped_keepsPart t m₂).mono (fun _ _ after => before.wrote (written.keepsPart after))
        (fun _ _ after => before.wrote (written.keepsPart after))

theorem afterStep_writes {m : Machine} (running : m.haltReason? = none) :
    DoesWrites part m.nextWrites? m.begun m.afterStep := by
  have ends := step_writes steady running
  unfold Ends at ends
  unfold afterStep
  cases stepped : step m with
  | ok outcome m' =>
    rw [stepped] at ends
    exact ends
  | error f m' =>
    rw [stepped] at ends
    exact ends

end Instructions

end Machine

end RiscvBoard
