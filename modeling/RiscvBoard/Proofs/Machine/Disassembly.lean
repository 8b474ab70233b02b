import RiscvBoard.Proofs.Board.Observation
import RiscvBoard.Proofs.Machine.Inspection
import RiscvBoard.Proofs.Machine.WellFormed

/-!
Instructions as a debugger sees them, while the cache is not in use. A fetch translates each half of
an instruction and reads it from the board as a whole; a debugger probes, and may turn to single
bytes. Where no leaf has to be marked, both find the same halves, and the first half alone tells
whether there is a second one.
-/

set_option autoImplicit false

namespace RiscvBoard.Machine

def halfAt (m : Machine) (vaddr : UInt64) : Except MemFault UInt64 :=
  match Mmu.probe m.bus.ram m.hart.csrs vaddr .fetch with
  | .ok paddr => m.bus.peek paddr .half
  | .error f => .error f

/-- A fault and a debugger's error that tell of the same page fault, or neither of one. -/
def SamePageFault (f : MemFault) (e : ProbeError) : Prop :=
  ∀ addr, f = .page .fetch addr ↔ e = .pageFault addr

private theorem samePageFault_of_not_page {f : MemFault} {addr : UInt64}
    (other : ∀ addr, f ≠ .page .fetch addr) : SamePageFault f (.invalidAddress addr) :=
  fun _ => iff_of_false (other _) nofun

section Halves

variable {m : Machine} {vaddr : UInt64}

private theorem halfAt_truncate (m : Machine) (vaddr : UInt64) :
    m.halfAt (m.xlen.truncate vaddr) = m.halfAt vaddr := by
  have same : m.hart.csrs.xlen.truncate (m.xlen.truncate vaddr) = m.hart.csrs.xlen.truncate vaddr :=
    m.xlen.truncate_truncate vaddr
  simp only [halfAt, Mmu.probe, same]

private theorem LeafAccessed.truncate {kind : AccessKind} (accessed : m.LeafAccessed vaddr kind) :
    m.LeafAccessed (m.xlen.truncate vaddr) kind := by
  have same : m.xlen.truncate (m.xlen.truncate vaddr) = m.xlen.truncate vaddr :=
    m.xlen.truncate_truncate vaddr
  unfold LeafAccessed
  rwa [same]

private theorem halfAt_eq_ok {half : UInt64} (found : m.halfAt vaddr = .ok half) :
    ∃ p, Mmu.probe m.bus.ram m.hart.csrs vaddr .fetch = .ok p ∧ m.bus.peek p .half = .ok half := by
  unfold halfAt at found
  split at found
  next p probed => exact ⟨p, probed, found⟩
  · contradiction

private theorem halfAt_eq_error {f : MemFault} (missing : m.halfAt vaddr = .error f) :
    Mmu.probe m.bus.ram m.hart.csrs vaddr .fetch = .error f ∨
    ∃ p, Mmu.probe m.bus.ram m.hart.csrs vaddr .fetch = .ok p ∧ m.bus.answers p .half = false ∧
      f = .outOfRange p := by
  unfold halfAt at missing
  split at missing
  next p probed =>
    right
    cases answered : m.bus.answers p .half with
    | true =>
      rcases Bus.peek_of_answers answered with ⟨value, seen⟩
      rw [seen] at missing
      contradiction
    | false =>
      rw [Bus.peek_of_not_answers answered] at missing
      exact ⟨p, probed, answered, (Except.error.inj missing).symm⟩
  next g failed => exact .inl (failed.trans missing)

private theorem halfAt_lt {half : UInt64} (found : m.halfAt vaddr = .ok half) :
    half.toNat < 2 ^ 16 := by
  rcases halfAt_eq_ok found with ⟨p, -, seen⟩
  exact Bus.peek_lt seen

private theorem page_of_isEven (even : IsEven vaddr) :
    (pageOffset vaddr).toNat + Width.half.bytes ≤ pageSize := by
  rw [isEven_iff] at even
  rw [toNat_pageOffset, pageSize, Width.bytes]
  omega

/-! ### What a debugger finds -/

private theorem peek_half (even : IsEven vaddr) {half : UInt64}
    (found : m.halfAt vaddr = .ok half) : m.peek vaddr .half .fetch = .ok half := by
  have page := page_of_isEven (even.truncate m.xlen)
  rw [← halfAt_truncate] at found
  rcases halfAt_eq_ok found with ⟨p, probed, seen⟩
  simp only [peek, if_pos page, probe_of_ok probed, bind, Except.bind, seen]
  rfl

private theorem invalidAddress_of_peekBytes {i n : Nat} {e : ProbeError} (few : i + n ≤ 8)
    (probed : ∀ j, i ≤ j → j < i + n → ∃ p, m.probeByte vaddr .fetch j = .ok p)
    (failed : m.peekBytes (m.xlen.truncate vaddr) .fetch i n = .error e) :
    ∃ addr, e = .invalidAddress addr := by
  induction n generalizing i with
  | zero => contradiction
  | succ n ih =>
    have here : m.xlen.truncate (m.xlen.truncate vaddr + i.toUInt64) = m.byteVaddr vaddr i :=
      m.byteVaddr_truncate vaddr (by omega)
    rcases probed i le_rfl (by omega) with ⟨p, found⟩
    simp only [peekBytes, here, peekByte, probe_of_ok found, bind, Except.bind] at failed
    cases answered : m.bus.answers p .byte with
    | false =>
      simp only [Bus.peek_of_not_answers answered] at failed
      exact ⟨_, (Except.error.inj failed).symm⟩
    | true =>
      rcases Bus.peek_of_answers answered with ⟨value, seen⟩
      simp only [seen, pure, Except.pure] at failed
      cases rest : m.peekBytes (m.xlen.truncate vaddr) .fetch (i + 1) n with
      | ok high =>
        rw [rest] at failed
        contradiction
      | error g =>
        rw [rest] at failed
        obtain rfl := Except.error.inj failed
        exact ih (by omega) (fun j low high => probed j (by omega) (by omega)) rest

private theorem peek_half_error (even : IsEven vaddr) {f : MemFault}
    (missing : m.halfAt vaddr = .error f) :
    ∃ e, m.peek vaddr .half .fetch = .error e ∧ SamePageFault f e := by
  have page := page_of_isEven (even.truncate m.xlen)
  have start := m.byteVaddr_zero vaddr
  rw [← halfAt_truncate] at missing
  rcases halfAt_eq_error missing with failed | ⟨p, probed, missed, rfl⟩
  · rcases Mmu.probe_error_fault failed with rfl | rfl
    · refine ⟨.invalidAddress (m.xlen.truncate vaddr), ?_, samePageFault_of_not_page (by simp)⟩
      simp only [peek, if_pos page, probe, failed, bind, Except.bind]
    · refine ⟨.pageFault (m.xlen.truncate vaddr), ?_, fun addr => ?_⟩
      · simp only [peek, if_pos page, probe, failed, bind, Except.bind]
      · have same : m.hart.csrs.xlen.truncate (m.xlen.truncate vaddr) = m.xlen.truncate vaddr :=
          m.xlen.truncate_truncate vaddr
        simp [same]
  · -- nothing holds both bytes, and so at least one of them is missing too
    have first : m.probeByte vaddr .fetch 0 = .ok p := by rw [probeByte, start, probed]
    rcases probeByte_of_page (w := .half) page first with ⟨inside, places⟩
    have whole : m.peek vaddr .half .fetch = m.peekBytes (m.xlen.truncate vaddr) .fetch 0 2 := by
      simp only [peek, if_pos page, probe_of_ok probed, bind, Except.bind,
        Bus.peek_of_not_answers missed]
      rfl
    have unseen : ¬ ∃ value, m.peek vaddr .half .fetch = .ok value := by
      rw [peek_ok_iff]
      intro all
      have answered := (Bus.answers_iff_bytes inside).2 fun i short => by
        rcases all i short with ⟨q, found, answered⟩
        rw [places i short] at found
        rwa [Except.ok.inj found]
      rw [missed] at answered
      contradiction
    cases seen : m.peek vaddr .half .fetch with
    | ok value => exact absurd ⟨value, seen⟩ unseen
    | error e =>
      rw [whole] at seen
      have found (j : Nat) (short : j < 2) : ∃ q, m.probeByte vaddr .fetch j = .ok q :=
        ⟨_, places j short⟩
      rcases invalidAddress_of_peekBytes (by decide) (fun j _ short => found j (by omega)) seen with
        ⟨addr, rfl⟩
      exact ⟨_, rfl, samePageFault_of_not_page (by simp)⟩

/-! ### What a fetch finds -/

section Fetches

variable {pc : UInt64} (off : m.mmu.cacheEnabled = false) (accessed : m.LeafAccessed vaddr .fetch)
include off accessed

private theorem translate_of_leafAccessed {p : UInt64}
    (probed : Mmu.probe m.bus.ram m.hart.csrs vaddr .fetch = .ok p) :
    translate vaddr .fetch m = .ok p m := by
  rw [translate_of_probe_ok off probed, marked_of_leafAccessed (by decide) accessed]
  rfl

private theorem fetchHalf_of_found {half : UInt64} (found : m.halfAt vaddr = .ok half) :
    fetchHalf pc vaddr m = .ok half.toUInt16 m := by
  rcases halfAt_eq_ok found with ⟨p, probed, seen⟩
  have translated := at_of_ok (translate_of_leafAccessed off accessed probed) pc
  simp only [fetchHalf, bind_of_ok translated, bind_get, seen]
  rfl

variable (pc) in
private theorem fetchHalf_of_missing {f : MemFault} (missing : m.halfAt vaddr = .error f) :
    ∃ g, fetchHalf pc vaddr m = .error (.ofFault pc g) m ∧
      ∀ addr, g = .page .fetch addr ↔ f = .page .fetch addr := by
  rcases halfAt_eq_error missing with failed | ⟨p, probed, missed, rfl⟩
  · have stops := at_of_error (translate_of_probe_error off failed) pc
    exact ⟨f, bind_of_error stops _, fun _ => Iff.rfl⟩
  · have translated := at_of_ok (translate_of_leafAccessed off accessed probed) pc
    refine ⟨.access .fetch vaddr, ?_, fun _ => iff_of_false nofun nofun⟩
    simp only [fetchHalf, bind_of_ok translated, bind_get, Bus.peek_of_not_answers missed]
    rfl

end Fetches

end Halves

/-! ### Instructions -/

/-- The leaves of the pages of an instruction are marked as accessed. An instruction whose first
half says that it is short has one page. -/
structure InstructionAccessed (m : Machine) (pc : UInt64) : Prop where
  first : m.LeafAccessed pc .fetch
  second : ∀ low, m.halfAt pc = .ok low → low &&& 3 = 3 → m.LeafAccessed (pc + 2) .fetch

inductive Halves (m : Machine) (pc : UInt64) : Except MemFault Fetched → Prop where
  | short {low : UInt64} (first : m.halfAt pc = .ok low) (low_bits : low &&& 3 ≠ 3) :
    Halves m pc (.ok ⟨low.toUInt32, true⟩)
  | long {low high : UInt64} (first : m.halfAt pc = .ok low) (low_bits : low &&& 3 = 3)
    (second : m.halfAt (pc + 2) = .ok high) :
    Halves m pc (.ok ⟨(high.toUInt32 <<< 16) ||| low.toUInt32, false⟩)
  | missing {f : MemFault} (first : m.halfAt pc = .error f) : Halves m pc (.error f)
  | cut {low : UInt64} {f : MemFault} (first : m.halfAt pc = .ok low) (low_bits : low &&& 3 = 3)
    (second : m.halfAt (pc + 2) = .error f) : Halves m pc (.error f)

section Instructions

variable {m : Machine} {pc : UInt64} {fetched : Fetched} {f : MemFault}

private theorem exists_halves (m : Machine) (pc : UInt64) : ∃ r, m.Halves pc r := by
  cases first : m.halfAt pc with
  | error f => exact ⟨_, .missing first⟩
  | ok low =>
    by_cases long : low &&& 3 = 3
    · cases second : m.halfAt (pc + 2) with
      | error f => exact ⟨_, .cut first long second⟩
      | ok high => exact ⟨_, .long first long second⟩
    · exact ⟨_, .short first long⟩

/-! #### The debugger -/

private theorem inspectInstruction_of_found (even : IsEven pc) (found : m.Halves pc (.ok fetched)) :
    m.inspectInstruction pc = .ok fetched := by
  have even_second : IsEven (pc + 2) := even.add (by decide)
  cases found with
  | short first low_bits =>
    simp only [inspectInstruction, peek_half even first, bind, Except.bind, if_pos low_bits]
    rfl
  | long first low_bits second =>
    simp only [inspectInstruction, peek_half even first, peek_half even_second second, bind,
      Except.bind, if_neg (not_not_intro low_bits)]
    rfl

private theorem inspectInstruction_of_missing (even : IsEven pc)
    (missing : m.Halves pc (.error f)) :
    ∃ e, m.inspectInstruction pc = .error e ∧ SamePageFault f e := by
  have even_second : IsEven (pc + 2) := even.add (by decide)
  cases missing with
  | missing first =>
    rcases peek_half_error even first with ⟨e, failed, same⟩
    refine ⟨e, ?_, same⟩
    simp only [inspectInstruction, failed, bind, Except.bind]
  | cut first low_bits second =>
    rcases peek_half_error even_second second with ⟨e, failed, same⟩
    refine ⟨e, ?_, same⟩
    simp only [inspectInstruction, peek_half even first, failed, bind, Except.bind,
      if_neg (not_not_intro low_bits)]

/-! #### The fetch -/

private theorem toUInt16_low_bits (half : UInt64) : half.toUInt16 &&& 3 = 3 ↔ half &&& 3 = 3 := by
  have low (n : Nat) : n &&& 3 = n % 4 := Nat.and_two_pow_sub_one_eq_mod n 2
  have short : (3 : UInt16).toNat = 3 := rfl
  have long : (3 : UInt64).toNat = 3 := rfl
  rw [← UInt16.toNat_inj, ← UInt64.toNat_inj, UInt16.toNat_and, UInt64.toNat_and,
    UInt64.toNat_toUInt16, short, long, low, low]
  omega

private theorem toUInt16_toUInt32_of_lt {half : UInt64} (small : half.toNat < 2 ^ 16) :
    half.toUInt16.toUInt32 = half.toUInt32 := by
  apply UInt32.toNat_inj.1
  rw [UInt16.toNat_toUInt32, UInt64.toNat_toUInt16, UInt64.toNat_toUInt32]
  omega

section Fetches

variable (off : m.mmu.cacheEnabled = false) (even : IsEven pc)
include off even

private theorem fetch_of_first (accessed : m.LeafAccessed pc .fetch) {low : UInt64}
    (first : m.halfAt pc = .ok low) : fetch pc m =
      if low &&& 3 ≠ 3 then .ok ⟨low.toUInt32, true⟩ m
      else (fetchHalf pc (m.xlen.truncate (pc + 2)) >>= fun high =>
        pure ⟨(high.toUInt32 <<< 16) ||| low.toUInt32, false⟩) m := by
  have aligned : ¬ (pc &&& 1 ≠ 0) := not_not_intro even
  have whole := toUInt16_toUInt32_of_lt (halfAt_lt first)
  rw [fetch, if_neg aligned, bind_of_ok (fetchHalf_of_found off accessed first), whole]
  by_cases long : low &&& 3 = 3
  · rw [if_neg (not_not_intro ((toUInt16_low_bits low).2 long)), if_neg (not_not_intro long),
      bind_get]
  · rw [if_pos (mt (toUInt16_low_bits low).1 long), if_pos long]
    rfl

private theorem fetch_of_short (accessed : m.LeafAccessed pc .fetch) {low : UInt64}
    (first : m.halfAt pc = .ok low) (low_bits : low &&& 3 ≠ 3) :
    fetch pc m = .ok ⟨low.toUInt32, true⟩ m := by
  rw [fetch_of_first off even accessed first, if_pos low_bits]

variable (accessed : m.InstructionAccessed pc)
include accessed

private theorem fetch_of_found (found : m.Halves pc (.ok fetched)) :
    fetch pc m = .ok fetched m := by
  cases found with
  | short first low_bits => exact fetch_of_short off even accessed.first first low_bits
  | @long low high first low_bits second =>
    have leaf := (accessed.second low first low_bits).truncate
    have whole := toUInt16_toUInt32_of_lt (halfAt_lt second)
    rw [← halfAt_truncate] at second
    rw [fetch_of_first off even accessed.first first, if_neg (not_not_intro low_bits),
      bind_of_ok (fetchHalf_of_found off leaf second), whole]
    rfl

private theorem fetch_of_missing (missing : m.Halves pc (.error f)) :
    ∃ g, fetch pc m = .error (.ofFault pc g) m ∧
      ∀ addr, g = .page .fetch addr ↔ f = .page .fetch addr := by
  cases missing with
  | missing first =>
    have aligned : ¬ (pc &&& 1 ≠ 0) := not_not_intro even
    rcases fetchHalf_of_missing pc off accessed.first first with ⟨g, stops, same⟩
    refine ⟨g, ?_, same⟩
    rw [fetch, if_neg aligned, bind_of_error stops]
  | @cut low f first low_bits second =>
    have leaf := (accessed.second low first low_bits).truncate
    rw [← halfAt_truncate] at second
    rcases fetchHalf_of_missing pc off leaf second with ⟨g, stops, same⟩
    refine ⟨g, ?_, same⟩
    rw [fetch_of_first off even accessed.first first, if_neg (not_not_intro low_bits),
      bind_of_error stops]

end Fetches

end Instructions

/-! ### Agreement -/

/-- What a debugger shows of an instruction, told by how a fetch of it ends. -/
inductive Shows (m : Machine) (pc : UInt64) : EStateM.Result Trap Machine Fetched → Prop where
  | instruction {fetched : Fetched} {m' : Machine} {i : Instr}
    (decoded : fetched.decode m.xlen = .ok i) (text : m.disassemble pc = i.text) :
    Shows m pc (.ok fetched m')
  /-- Bits that are no instruction are shown in as many digits as they have. -/
  | illegal {fetched : Fetched} {m' : Machine} {e : DecodeError}
    (undecoded : fetched.decode m.xlen = .error e)
    (text : m.disassemble pc = "<illegal " ++
      Hex.textPadded (if fetched.compressed then 4 else 8) fetched.raw.toNat ++ ">") :
    Shows m pc (.ok fetched m')
  /-- Instead of an instruction its error is shown, which is a page fault if the fetch ends in one,
  and at the same address. -/
  | unreadable {t : Trap} {m' : Machine} {e : ProbeError}
    (text : m.disassemble pc = "<" ++ e.message ++ ">")
    (same : ∀ addr, t = .ofException (.pageFault .fetch addr) pc ↔ e = .pageFault addr) :
    Shows m pc (.error t m')

/-- A debugger shows the instruction that a fetch finds, whatever mapping the pages have and
wherever memory ends: the text of the instruction, the bits that are none, or an error if there is
nothing to be fetched. A short instruction is told by its two bytes alone, in both. -/
theorem disassemble_shows {m : Machine} {pc : UInt64} (uncached : m.mmu.cacheEnabled = false)
    (even : IsEven pc) (accessed : m.InstructionAccessed pc) :
    m.Shows pc (fetch pc m) ∧
    ∀ low, m.halfAt pc = .ok low → low &&& 3 ≠ 3 →
      ∀ m', m'.xlen = m.xlen → m'.mmu.cacheEnabled = false → m'.LeafAccessed pc .fetch →
        m'.halfAt pc = .ok low →
        fetch pc m = .ok ⟨low.toUInt32, true⟩ m ∧ fetch pc m' = .ok ⟨low.toUInt32, true⟩ m' ∧
          m'.disassemble pc = m.disassemble pc := by
  constructor
  · rcases m.exists_halves pc with ⟨⟨f⟩ | ⟨fetched⟩, halves⟩
    · rcases inspectInstruction_of_missing even halves with ⟨e, inspected, told⟩
      rcases fetch_of_missing uncached even accessed halves with ⟨g, fetched, same⟩
      rw [fetched]
      refine .unreadable (e := e) (by simp only [disassemble, inspected]) fun addr => ?_
      rw [← told addr, ← same addr]
      cases g <;> simp [Trap.ofFault, Trap.ofException, Exception.ofFault]
    · have inspected := inspectInstruction_of_found even halves
      rw [fetch_of_found uncached even accessed halves]
      cases decoded : fetched.decode m.xlen with
      | ok i => exact .instruction decoded (by simp only [disassemble, inspected, decoded])
      | error e => exact .illegal decoded (by simp only [disassemble, inspected, decoded])
  · intro low first low_bits m' width uncached' accessed' first'
    have here := inspectInstruction_of_found even (.short first low_bits)
    have there := inspectInstruction_of_found even (.short first' low_bits)
    refine ⟨fetch_of_short uncached even accessed.first first low_bits,
      fetch_of_short uncached' even accessed' first' low_bits, ?_⟩
    simp only [disassemble, here, there, width]

def withCodePage (memory : Array UInt8) : Machine :=
  let m := reset 0 .rv32
  let ram : Ram := ⟨⟨memory⟩⟩
  { m with
    hart.csrs := { m.hart.csrs with satp := 0x80080000, privilege := .supervisor }
    bus := { m.bus with ram } }

def withShortInstruction : Machine :=
  withCodePage #[0x01, 0, 0, 0x20, 0x4b, 0, 0, 0x20, 0x7d, 0x15, 0x13]

def withShortEnd : Machine :=
  withCodePage #[0x01, 0, 0, 0x20, 0x4b, 0, 0, 0x20, 0x7d, 0x15]

theorem disassemble_shows_shortEnd :
    withShortInstruction.mmu.cacheEnabled = false ∧ IsEven 0x1008 ∧
      withShortInstruction.InstructionAccessed 0x1008 ∧
      withShortInstruction.Shows 0x1008 (fetch 0x1008 withShortInstruction) ∧
      fetch 0x1008 withShortEnd = .ok ⟨0x157d, true⟩ withShortEnd ∧
      withShortEnd.disassemble 0x1008 = "addi a0, a0, -1" := by
  have leaf : withShortInstruction.LeafAccessed 0x1008 .fetch := by
    intro _ walk walked
    cases walked
    decide
  have leaf_end : withShortEnd.LeafAccessed 0x1008 .fetch := by
    intro _ walk walked
    cases walked
    decide
  have first : withShortInstruction.halfAt 0x1008 = .ok 0x157d := by rfl
  have first_end : withShortEnd.halfAt 0x1008 = .ok 0x157d := by rfl
  have accessed : withShortInstruction.InstructionAccessed 0x1008 := by
    refine ⟨leaf, fun low found low_bits => ?_⟩
    cases first.symm.trans found
    contradiction
  have text : withShortInstruction.disassemble 0x1008 = "addi a0, a0, -1" := by decide +kernel
  rcases disassemble_shows rfl (by decide) accessed with ⟨shown, alone⟩
  rcases alone _ first (by decide) withShortEnd rfl rfl leaf_end first_end with ⟨-, fetched, same⟩
  exact ⟨rfl, by decide, accessed, shown, fetched, same.trans text⟩

end RiscvBoard.Machine
