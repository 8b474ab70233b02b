import RiscvBoard.Proofs.Machine.Frames
import RiscvBoard.Proofs.Machine.Straddling
import RiscvBoard.Proofs.Paging.Probing

/-!
A store lands in full or not at all. It lands exactly if its addresses are translated and the board
accepts each of its bytes; if not, nothing is changed but the paging unit and marks in the page
tables.
-/

set_option autoImplicit false

namespace RiscvBoard

namespace Machine

section Spans

variable {m m₁ : Machine} {vaddr : UInt64} {kind : AccessKind} {w : Width} {span : Span}

theorem toNat_translate_mod {p : UInt64} (translated : translate vaddr kind m = .ok p m₁) :
    p.toNat % 2 ^ 12 = (m.xlen.truncate vaddr).toNat % 2 ^ 12 := by
  unfold translate at translated
  dsimp only at translated
  split at translated
  next found =>
    rw [(EStateM.Result.ok.inj translated).1] at found
    exact Mmu.toNat_plan_mod found
  next => contradiction

private theorem translateSpan_inside
    (translated : translateSpan (m.xlen.truncate vaddr) w kind m = .ok span m₁)
    (whole : span.next = none) : span.first.toNat % 2 ^ 12 + w.bytes ≤ 2 ^ 12 := by
  have ends := translatesSpan m (m.xlen.truncate vaddr) w kind
  rw [translated] at ends
  cases ends with
  | whole first inside =>
    have place := toNat_translate_mod first
    rw [Xlen.truncate_truncate] at place
    rw [toNat_pageOffset, pageSize] at inside
    dsimp only
    omega
  | split first crosses second => contradiction

private theorem accepted_iff_bytes
    (translated : translateSpan (m.xlen.truncate vaddr) w .store m = .ok span m₁) :
    span.Served m₁.bus.acceptsStore w ↔
      ∀ i < w.bytes, m₁.bus.acceptsStore (span.byteAddr i) .byte := by
  have page := translateSpan_inside translated
  rcases span with ⟨first, _ | next⟩
  · exact Bus.serves_iff_bytes Bus.acceptsStore_iff (page rfl)
  · exact Iff.rfl

/-- Of a store that the board does not accept as a whole, it refuses some byte. -/
theorem exists_refused (translated : translateSpan (m.xlen.truncate vaddr) w .store m = .ok span m₁)
    (missed : ¬ span.Served m₁.bus.acceptsStore w) :
    ∃ i < w.bytes, m₁.bus.acceptsStore (span.byteAddr i) .byte = false := by
  by_contra none
  refine missed ((accepted_iff_bytes translated).2 fun i short => ?_)
  exact Bool.eq_true_of_not_eq_false fun refused => none ⟨i, short, refused⟩

private theorem store_of_served
    (translated : translateSpan (m.xlen.truncate vaddr) w .store m = .ok span m₁)
    (served : span.Served m₁.bus.acceptsStore w) (value : UInt64) :
    ∃ m', store vaddr w value m = .ok () m' ∧
      m'.bus = (span.writes w value).foldl Bus.apply m₁.bus := by
  simp only [store, bind_get, bind_of_ok translated]
  rcases span with ⟨first, _ | next⟩
  · exact ⟨_, storePhys_of_accepts served _ value, checkTohost_bus _ _ _⟩
  · refine ⟨_, storeSplit_of_accepts (acceptsBytes_iff.2 served) _ value, ?_⟩
    rw [checkTohost_bus, writeBytes_bus]
    rfl

theorem store_of_fault {f : MemFault} (value : UInt64)
    (fault : translateSpan (m.xlen.truncate vaddr) w .store m = .error f m₁) :
    store vaddr w value m = .error f m₁ := by
  rw [store, bind_get, bind_of_error fault]

end Spans

/-- A store that succeeds has done all its writes, on a board that accepts each of its bytes. A
store that fails has left the hart, the devices, the reservation and the exit code as they were, and
memory but for marks; its addresses are not translated, or some byte is not accepted. What the board
accepts is what it can store, and no store changes what it accepts. -/
theorem store_allOrNothing (m : Machine) (vaddr : UInt64) (w : Width) (value : UInt64) :
    Ends (store vaddr w value) m
      (fun _ m' => ∃ span m₁,
        translateSpan (m.xlen.truncate vaddr) w .store m = .ok span m₁ ∧
        (∀ i < w.bytes, m₁.bus.acceptsStore (span.byteAddr i) .byte) ∧
        m'.bus = (span.writes w value).foldl Bus.apply m₁.bus)
      (fun _ m' => Undisturbed m m' ∧ SameDevices m m' ∧
        ∀ span m₁, translateSpan (m.xlen.truncate vaddr) w .store m = .ok span m₁ →
          ∃ i < w.bytes, m₁.bus.acceptsStore (span.byteAddr i) .byte = false) ∧
    ∀ (b : Bus) (addr : UInt64) (v : Width) (number : UInt64),
      (b.acceptsStore addr v ↔ ∃ c, Bus.store addr v number b = .ok () c) ∧
      ∀ c, Bus.store addr v number b = .ok () c →
        ∀ other u, c.acceptsStore other u = b.acceptsStore other u := by
  constructor
  · have undisturbed := ends_translateSpan (m.xlen.truncate vaddr) w .store m
    have devices := translateSpan_sameDevices (m.xlen.truncate vaddr) w .store m
    unfold Ends
    cases translated : translateSpan (m.xlen.truncate vaddr) w .store m with
    | error f m₁ =>
      rw [store_of_fault value translated]
      refine ⟨(undisturbed.of_error translated).1, devices.of_error translated, ?_⟩
      intro span m₂ reached
      contradiction
    | ok span m₁ =>
      obtain ⟨served, -⟩ | ⟨missed, failed⟩ := store_cases translated value
      · obtain ⟨m', done, bus⟩ := store_of_served translated served value
        rw [done]
        exact ⟨span, m₁, rfl, (accepted_iff_bytes translated).1 served, bus⟩
      · rw [failed]
        refine ⟨undisturbed.of_ok translated, devices.of_ok translated, ?_⟩
        rintro _ _ same
        obtain ⟨rfl, rfl⟩ := EStateM.Result.ok.inj same
        exact exists_refused translated missed
  · intro b addr v number
    refine ⟨Bus.acceptsStore_iff_store number, fun c stored other u => ?_⟩
    have accepted := (Bus.acceptsStore_iff_store number).2 ⟨c, stored⟩
    rw [Bus.store_of_accepts accepted] at stored
    obtain rfl := (EStateM.Result.ok.inj stored).2
    exact b.acceptsStore_write addr other v u number

end Machine

end RiscvBoard
