import Mathlib.Data.List.Forall2
import Mathlib.Data.Option.Basic
import Mathlib.Tactic.IntervalCases
import RiscvBoard.Elf.Format
import RiscvBoard.Elf.Load
import RiscvBoard.Proofs.Region

/-!
Loading of an image into guest memory, with any reader whose answers are in the files. It succeeds
exactly if the image is one for this machine and each of its segments fits into the file and into
memory; the sizes and addresses are compared as numbers, which do not wrap. Memory is then what the
last segment at each address says.
-/

set_option autoImplicit false

namespace RiscvBoard

/-! ### Blocks of bytes -/

namespace Ram

theorem data_zeroBytes (n : Nat) : (zeroBytes n).data = Array.replicate n 0 := by
  induction n using zeroBytes.induct with
  | case1 =>
    rw [zeroBytes, if_pos rfl]
    rfl
  | case2 n some even ih =>
    rw [zeroBytes, if_neg some]
    dsimp only at ih ⊢
    rw [if_pos even]
    rw [ByteArray.data_append, ih, Array.replicate_append_replicate]
    congr 1
    omega
  | case3 n some odd ih =>
    rw [zeroBytes, if_neg some]
    dsimp only at ih ⊢
    rw [if_neg odd]
    rw [ByteArray.data_push, ByteArray.data_append, ih, Array.replicate_append_replicate,
      ← Array.replicate_succ]
    congr 1
    omega

private theorem byteAt_blit {r : Ram} {addr : UInt64} {block : ByteArray}
    (inside : r.contains addr block.size) {k : Nat} (short : k < block.size) :
    (r.blit addr block).byteAt (offset addr + k) = (block.data[k]?).getD 0 := by
  have place := toNat_eq_offset inside
  have bounds := contains_iff_toNat.1 inside
  have size : r.size = r.bytes.data.size := rfl
  have short' : k < block.data.size := short
  have length : block.size = block.data.size := rfl
  rw [byteAt_eq_getD, blit, ByteArray.copySlice]
  congr 1
  simp only [Array.getElem?_append, Array.getElem?_extract, Array.size_append,
    Array.size_extract]
  rw [if_pos (by omega), if_neg (by omega), if_pos (by omega)]
  congr 1
  omega

end Ram

namespace Elf

/-! ### Images in files -/

/-- A program header stands at a place in a file. -/
structure Segment.EncodedAt (l : Layout) (file : ByteArray) (start : Nat) (s : Segment) : Prop where
  type : l.word? file start = some s.type
  offset : l.long? file (start + l.wordSize) = some s.offset
  physicalAddr : l.long? file (start + 3 * l.wordSize) = some s.physicalAddr
  fileSize : l.long? file (start + 4 * l.wordSize) = some s.fileSize
  memorySize : l.long? file (start + 5 * l.wordSize) = some s.memorySize

/-- The program headers stand in a table, whose place and length the header of the file tells. -/
structure TableEncoded (l : Layout) (file : ByteArray) (segments : List Segment) : Prop where
  count : (l.half? file (32 + 3 * l.wordSize)).map UInt16.toNat = some segments.length
  entries : ∃ table, l.long? file (24 + l.wordSize) = some table ∧
    ∀ (i : Nat) (s : Segment), segments[i]? = some s →
      s.EncodedAt l file (table.toNat + i * l.segmentSize)

/-- The header and the program headers of an image are those in the file. -/
structure Encodes (file : ByteArray) (image : Image) : Prop where
  cls : byte? file 4 = some image.header.cls
  encoding : byte? file 5 = some image.header.encoding
  type : image.header.layout.half? file 16 = some image.header.type
  machine : image.header.layout.half? file 18 = some image.header.machine
  entry : image.header.layout.long? file 24 = some image.header.entry
  segments : TableEncoded image.header.layout file image.segments

/-- What is expected of a reader: the images that it answers with are in the files. -/
def Reader.Faithful (reader : Reader) : Prop :=
  ∀ file image, reader file = .ok image → Encodes file image

private theorem Segment.EncodedAt.unique {l : Layout} {file : ByteArray} {start : Nat}
    {s t : Segment} (one : s.EncodedAt l file start) (two : t.EncodedAt l file start) : s = t := by
  have type := Option.some.inj (one.type.symm.trans two.type)
  have offset := Option.some.inj (one.offset.symm.trans two.offset)
  have physicalAddr := Option.some.inj (one.physicalAddr.symm.trans two.physicalAddr)
  have fileSize := Option.some.inj (one.fileSize.symm.trans two.fileSize)
  have memorySize := Option.some.inj (one.memorySize.symm.trans two.memorySize)
  cases s
  cases t
  simp_all

private theorem TableEncoded.unique {l : Layout} {file : ByteArray} {as bs : List Segment}
    (one : TableEncoded l file as) (two : TableEncoded l file bs) : as = bs := by
  have length := Option.some.inj (one.count.symm.trans two.count)
  obtain ⟨table, place, entries⟩ := one.entries
  obtain ⟨table', place', entries'⟩ := two.entries
  obtain rfl := Option.some.inj (place.symm.trans place')
  refine List.ext_getElem length fun i here there => ?_
  exact (entries i _ (List.getElem?_eq_getElem here)).unique
    (entries' i _ (List.getElem?_eq_getElem there))

private theorem Encodes.unique {file : ByteArray} {a b : Image} (one : Encodes file a)
    (two : Encodes file b) : a.header = b.header ∧ a.segments = b.segments := by
  obtain ⟨header, segments, symbols⟩ := a
  obtain ⟨header', segments', symbols'⟩ := b
  have cls := Option.some.inj (one.cls.symm.trans two.cls)
  have encoding := Option.some.inj (one.encoding.symm.trans two.encoding)
  have layout : header.layout = header'.layout := by
    rw [Header.layout, cls, encoding]
    rfl
  obtain ⟨-, -, type, machine, entry, table⟩ := one
  dsimp only at type machine entry table cls encoding
  rw [layout] at type machine entry table
  have type := Option.some.inj (type.symm.trans two.type)
  have machine := Option.some.inj (machine.symm.trans two.machine)
  have entry := Option.some.inj (entry.symm.trans two.entry)
  refine ⟨?_, table.unique two.segments⟩
  cases header
  cases header'
  simp_all

/-! ### The reader of files -/

private theorem forall₂_of_mapM {α β : Type} {f : α → Option β} {xs : List α} {ys : List β}
    (all : xs.mapM f = some ys) : List.Forall₂ (fun x y => f x = some y) xs ys := by
  induction xs generalizing ys with
  | nil =>
    cases all
    exact .nil
  | cons x xs ih =>
    simp only [List.mapM_cons, Option.bind_eq_bind, Option.bind_eq_some_iff, Option.pure_def,
      Option.some.injEq] at all
    obtain ⟨y, first, rest, later, rfl⟩ := all
    exact .cons first (ih later)

private theorem Layout.segment?_encoded {l : Layout} {file : ByteArray} {start : Nat} {s : Segment}
    (read : l.segment? file start = some s) : s.EncodedAt l file start := by
  simp only [segment?, Option.bind_eq_bind, Option.bind_eq_some_iff, Option.pure_def,
    Option.some.injEq] at read
  obtain ⟨-, -, type, atType, offset, atOffset, physicalAddr, atPhysicalAddr, fileSize, atFileSize,
    memorySize, atMemorySize, rfl⟩ := read
  exact ⟨atType, atOffset, atPhysicalAddr, atFileSize, atMemorySize⟩

private theorem Layout.segments?_encoded {l : Layout} {file : ByteArray} {t : Tables}
    {segments : List Segment} (tables : l.tables? file = some t)
    (read : l.segments? file t = some segments) : TableEncoded l file segments := by
  simp only [tables?, Option.bind_eq_bind, Option.bind_eq_some_iff, Option.pure_def,
    Option.some.injEq] at tables
  obtain ⟨place, atPlace, _, _, count, atCount, _, _, _, _, rfl⟩ := tables
  simp only [segments?, Option.bind_eq_bind, Option.bind_eq_some_iff] at read
  obtain ⟨-, -, all⟩ := read
  obtain ⟨length, entries⟩ := List.forall₂_iff_get.1 (forall₂_of_mapM all)
  rw [List.length_range] at length
  refine ⟨by rw [atCount, ← length]; rfl, place, atPlace, fun i s found => ?_⟩
  obtain ⟨inside, rfl⟩ := List.getElem?_eq_some_iff.1 found
  have entry := entries i (by rwa [List.length_range, length]) inside
  rw [List.get_eq_getElem, List.getElem_range] at entry
  exact segment?_encoded entry

private theorem Header.read?_encoded {file : ByteArray} {h : Header} (read : read? file = some h) :
    byte? file 4 = some h.cls ∧ byte? file 5 = some h.encoding ∧
      h.layout.half? file 16 = some h.type ∧ h.layout.half? file 18 = some h.machine ∧
      h.layout.long? file 24 = some h.entry := by
  simp only [read?, Option.bind_eq_bind, Option.bind_eq_some_iff, Option.pure_def,
    Option.some.injEq] at read
  obtain ⟨-, -, cls, atCls, encoding, atEncoding, -, -, -, -, type, atType, machine, atMachine,
    entry, atEntry, rfl⟩ := read
  exact ⟨atCls, atEncoding, atType, atMachine, atEntry⟩

/-- The reader of files answers with what is encoded in them. -/
private theorem fileReader_faithful : fileReader.Faithful := by
  intro file image read
  unfold fileReader at read
  split at read
  next found =>
    cases read
    simp only [Image.read?, Option.bind_eq_bind, Option.bind_eq_some_iff, Option.pure_def,
      Option.some.injEq] at found
    obtain ⟨header, atHeader, t, tables, segments, atSegments, -, -, -, -, symbols, -, rfl⟩ := found
    obtain ⟨cls, encoding, type, machine, entry⟩ := Header.read?_encoded atHeader
    exact ⟨cls, encoding, type, machine, entry, Layout.segments?_encoded tables atSegments⟩
  · contradiction

/-! ### Images for this machine -/

/-- An image is one for this machine: of either class, little-endian, for RISC-V, and an executable
or a shared object. -/
structure Header.Supported (h : Header) : Prop where
  cls : h.cls = 1 ∨ h.cls = 2
  encoding : h.encoding = 1
  machine : h.machine = 243
  type : h.type = 2 ∨ h.type = 3

private theorem Header.check_eq_ok_iff {h : Header} : h.check = .ok () ↔ h.Supported := by
  unfold check narrowClass wideClass littleEndian machineNumber executableType sharedType
  split
  next other =>
    refine iff_of_false nofun fun good => ?_
    exact good.cls.elim other.1 other.2
  next known =>
  split
  next other => exact iff_of_false nofun fun good => other good.encoding
  next little =>
  split
  next other => exact iff_of_false nofun fun good => other good.machine
  next riscv =>
  split
  next other =>
    refine iff_of_false nofun fun good => ?_
    exact good.type.elim other.1 other.2
  next kind =>
    simp only [ne_eq, not_and_or, not_not] at known little riscv kind
    exact iff_of_true rfl ⟨known, little, riscv, kind⟩

/-! ### Segments -/

namespace Segment

/-- A segment lies inside the file and inside memory, and has no more bytes in the file than in
memory. -/
structure Fits (s : Segment) (file : ByteArray) (ram : Ram) : Prop where
  inFile : s.offset.toNat + s.fileSize.toNat ≤ file.size
  sizes : s.fileSize.toNat ≤ s.memorySize.toNat
  above : Ram.base.toNat ≤ s.physicalAddr.toNat
  below : s.physicalAddr.toNat + s.memorySize.toNat ≤ Ram.base.toNat + ram.size

def Covers (s : Segment) (addr : Nat) : Prop :=
  s.physicalAddr.toNat ≤ addr ∧ addr < s.physicalAddr.toNat + s.memorySize.toNat
  deriving Decidable

/-- The byte of a segment at an address that it covers: a byte of the file, or zero after those. -/
def byteAt (s : Segment) (file : ByteArray) (addr : Nat) : UInt8 :=
  let i := addr - s.physicalAddr.toNat
  if i < s.fileSize.toNat then (byte? file (s.offset.toNat + i)).getD 0 else 0

variable {s : Segment} {file : ByteArray} {ram after : Ram}

private theorem Fits.of_size (fits : s.Fits file ram) (same : after.size = ram.size) :
    s.Fits file after :=
  ⟨fits.inFile, fits.sizes, fits.above, same ▸ fits.below⟩

private theorem limit_gt_iff (room : ram.size < 2 ^ 63) :
    s.limit > ram.limit ↔
      Ram.base.toNat + ram.size < s.physicalAddr.toNat + s.memorySize.toNat := by
  have base : Ram.base.toNat = 0x80000000 := rfl
  have ends : ram.limit.toNat = Ram.base.toNat + ram.size := by
    have small : ram.size.toUInt64.toNat = ram.size := by
      show ram.size % 2 ^ 64 = ram.size
      omega
    rw [Ram.limit, UInt64.toNat_add, small]
    omega
  have size : UInt64.size = 2 ^ 64 := rfl
  rw [gt_iff_lt, UInt64.lt_iff_toNat_lt, ends, limit]
  split
  next exact =>
    rw [UInt64.toNat_add, Nat.mod_eq_of_lt exact]
  next beyond =>
    have last : (0xffffffffffffffff : UInt64).toNat = 2 ^ 64 - 1 := rfl
    rw [last]
    omega

private theorem check_eq_ok_iff (room : ram.size < 2 ^ 63) :
    s.check file ram = .ok () ↔ s.Fits file ram := by
  unfold check
  simp only [limit_gt_iff room, UInt64.lt_iff_toNat_lt]
  split
  · refine iff_of_false nofun fun fits => ?_
    have := fits.inFile
    omega
  split
  · refine iff_of_false nofun fun fits => ?_
    have := fits.sizes
    omega
  split
  · refine iff_of_false nofun fun fits => ?_
    have := fits.above
    have := fits.below
    omega
  · exact iff_of_true rfl ⟨by omega, by omega, by omega, by omega⟩

private theorem check_ne_memory {fault : MemFault} : s.check file ram ≠ .error (.memory fault) := by
  unfold check
  split
  · nofun
  split
  · nofun
  split <;> nofun

private theorem data_contents : (s.contents file).data =
    file.data.extract s.offset.toNat (s.offset.toNat + s.fileSize.toNat) ++
      Array.replicate (s.memorySize.toNat - s.fileSize.toNat) 0 := by
  rw [contents, ByteArray.data_append, ByteArray.data_extract, Ram.data_zeroBytes]

private theorem Fits.size_contents (fits : s.Fits file ram) :
    (s.contents file).size = s.memorySize.toNat := by
  have inFile := fits.inFile
  have sizes := fits.sizes
  have size : file.size = file.data.size := rfl
  rw [← ByteArray.size_data, data_contents, Array.size_append, Array.size_extract,
    Array.size_replicate]
  omega

private theorem Fits.contains (fits : s.Fits file ram) :
    ram.contains s.physicalAddr (s.contents file).size := by
  rw [fits.size_contents, Ram.contains_iff_toNat]
  exact ⟨fits.above, fits.below⟩

private theorem Fits.contents_byte (fits : s.Fits file ram) {i : Nat}
    (short : i < s.memorySize.toNat) :
    ((s.contents file).data[i]?).getD 0 = s.byteAt file (s.physicalAddr.toNat + i) := by
  have inFile := fits.inFile
  have size : file.size = file.data.size := rfl
  rw [data_contents, byteAt, Nat.add_sub_cancel_left]
  rw [Array.getElem?_append, Array.getElem?_extract, Array.size_extract]
  split
  next low =>
    rw [if_pos (by omega), byte?, dif_pos (by omega), Array.getElem?_eq_getElem]
    rfl
  next high =>
    rw [if_neg (by omega), Array.getElem?_replicate, if_pos (by omega)]
    rfl

end Segment

/-- The last of several segments that covers an address. -/
def lastCovering? (segments : List Segment) (addr : Nat) : Option Segment :=
  segments.reverse.find? fun s => decide (s.Covers addr)

private theorem lastCovering?_cons (s : Segment) (segments : List Segment) (addr : Nat) :
    lastCovering? (s :: segments) addr =
      (lastCovering? segments addr).or (if s.Covers addr then some s else none) := by
  rw [lastCovering?, List.reverse_cons, List.find?_append, ← lastCovering?]
  congr 1
  by_cases covers : s.Covers addr <;> simp [covers]

/-- Guest memory after segments were loaded: at each address the last one that covers it counts. -/
structure Placed (file : ByteArray) (segments : List Segment) (before after : Ram) : Prop where
  size : after.size = before.size
  byte : ∀ i < before.size, after.byteAt i =
    match lastCovering? segments (Ram.base.toNat + i) with
    | some s => s.byteAt file (Ram.base.toNat + i)
    | none => before.byteAt i

private theorem Placed.nil (file : ByteArray) (ram : Ram) : Placed file [] ram ram :=
  ⟨rfl, fun _ _ => rfl⟩

private theorem Placed.cons {file : ByteArray} {s : Segment} {segments : List Segment}
    {ram after : Ram} (fits : s.Fits file ram)
    (rest : Placed file segments (ram.blit s.physicalAddr (s.contents file)) after) :
    Placed file (s :: segments) ram after := by
  have same := Ram.sameOutside_blit fits.contains
  have place := Ram.toNat_eq_offset fits.contains
  have size : (ram.blit s.physicalAddr (s.contents file)).size = ram.size := same.size
  refine ⟨rest.size.trans size, fun i inside => ?_⟩
  rw [rest.byte i (by rw [size]; exact inside), lastCovering?_cons]
  cases lastCovering? segments (Ram.base.toNat + i) with
  | some t => rfl
  | none =>
    dsimp only
    by_cases covers : s.Covers (Ram.base.toNat + i)
    · obtain ⟨low, high⟩ := covers
      obtain ⟨k, rfl⟩ : ∃ k, i = Ram.offset s.physicalAddr + k :=
        Nat.exists_eq_add_of_le (by omega)
      have short : k < s.memorySize.toNat := by omega
      rw [Option.none_or, if_pos ⟨low, high⟩, Ram.byteAt_blit fits.contains
        (by rw [fits.size_contents]; exact short), fits.contents_byte short, place, Nat.add_assoc]
    · rw [Option.none_or, if_neg covers]
      refine Ram.byteAt_of_sameOutside same fun touched => covers ?_
      rw [fits.size_contents] at touched
      exact touched

/-- The segments of an image that are to be loaded, in the order of the file. -/
def loaded (segments : List Segment) : List Segment :=
  segments.filter fun s => s.type == loadType

section Loading

variable {file : ByteArray} {s : Segment} {ram : Ram} (rest : List Segment)

private theorem loadSegments_of_other (other : s.type ≠ loadType) :
    loadSegments file (s :: rest) = loadSegments file rest :=
  if_neg other

private theorem loadSegments_of_wanted (wanted : s.type = loadType) :
    loadSegments file (s :: rest) ram =
      match s.check file ram with
      | .error e => .error e ram
      | .ok _ =>
        if ram.contains s.physicalAddr (s.contents file).size then
          loadSegments file rest (ram.blit s.physicalAddr (s.contents file))
        else .error (.memory (.outOfRange s.physicalAddr)) ram :=
  congrFun (if_pos wanted) ram

private theorem loadSegments_of_fits (room : ram.size < 2 ^ 63) (wanted : s.type = loadType)
    (fits : s.Fits file ram) : loadSegments file (s :: rest) ram =
      loadSegments file rest (ram.blit s.physicalAddr (s.contents file)) := by
  have checked := (Segment.check_eq_ok_iff room).2 fits
  simp only [loadSegments_of_wanted rest wanted, checked, if_pos fits.contains]

private theorem loadSegments_of_not_fits (room : ram.size < 2 ^ 63) (wanted : s.type = loadType)
    (misfit : ¬ s.Fits file ram) :
    ∃ e, loadSegments file (s :: rest) ram = .error e ram ∧ ∀ fault, e ≠ .memory fault := by
  cases checked : s.check file ram with
  | ok _ => exact absurd ((Segment.check_eq_ok_iff room).1 checked) misfit
  | error e =>
    refine ⟨e, ?_, fun fault same => Segment.check_ne_memory (same ▸ checked)⟩
    simp only [loadSegments_of_wanted rest wanted, checked]

end Loading

/-- Loading ends with all segments in place, or with one that does not fit; no write to memory
fails. -/
private theorem loadSegments_cases (file : ByteArray) (segments : List Segment) {ram : Ram}
    (room : ram.size < 2 ^ 63) :
    ((∀ s ∈ loaded segments, s.Fits file ram) ∧
      ∃ after, loadSegments file segments ram = .ok () after ∧
        Placed file (loaded segments) ram after) ∨
    ((∃ s ∈ loaded segments, ¬ s.Fits file ram) ∧
      ∃ e after, loadSegments file segments ram = .error e after ∧ ∀ fault, e ≠ .memory fault) := by
  induction segments generalizing ram with
  | nil => exact .inl ⟨nofun, ram, rfl, .nil file ram⟩
  | cons s rest ih =>
    by_cases wanted : s.type = loadType
    swap
    · have skipped : loaded (s :: rest) = loaded rest :=
        List.filter_cons_of_neg (by simpa using wanted)
      rw [skipped, loadSegments_of_other rest wanted]
      exact ih room
    have first : loaded (s :: rest) = s :: loaded rest :=
      List.filter_cons_of_pos (by simpa using wanted)
    rw [first]
    by_cases fits : s.Fits file ram
    · have same : (ram.blit s.physicalAddr (s.contents file)).size = ram.size :=
        (Ram.sameOutside_blit fits.contains).size
      rw [loadSegments_of_fits rest room wanted fits]
      rcases ih (by rw [same]; exact room) with
        ⟨all, after, done, placed⟩ | ⟨⟨t, found, misfit⟩, failed⟩
      · refine .inl ⟨List.forall_mem_cons.2 ⟨fits, fun t found => ?_⟩, after, done,
          .cons fits placed⟩
        exact (all t found).of_size same.symm
      · refine .inr ⟨⟨t, List.mem_cons_of_mem s found, fun good => ?_⟩, failed⟩
        exact misfit (good.of_size same)
    · rcases loadSegments_of_not_fits rest room wanted fits with ⟨e, failed, other⟩
      exact .inr ⟨⟨s, List.mem_cons_self, fits⟩, e, ram, failed, other⟩

/-! ### Loading -/

private theorem Header.check_ne_memory {h : Header} {fault : MemFault} :
    h.check ≠ .error (.memory fault) := by
  unfold check
  split
  · nofun
  split
  · nofun
  split
  · nofun
  split <;> nofun

section Reading

variable {reader : Reader} {file : ByteArray} {image : Image}

private theorem load_of_malformed {cause : String} (malformed : reader file = .error cause)
    (ram : Ram) : load reader file ram = .error (.malformed cause) ram := by
  rw [load, malformed]
  rfl

private theorem load_of_checked (read : reader file = .ok image)
    (checked : image.header.check = .ok ()) (ram : Ram) :
    load reader file ram =
      match loadSegments file image.segments ram with
      | .ok _ after =>
        .ok ⟨image.header.entry, symbolTable image.symbols, exitWord? image.symbols⟩ after
      | .error e after => .error e after := by
  simp only [load, read, checked, bind, EStateM.bind]
  cases loadSegments file image.segments ram <;> rfl

private theorem load_of_refused {e : LoadError} (read : reader file = .ok image)
    (refused : image.header.check = .error e) (ram : Ram) :
    load reader file ram = .error e ram := by
  simp only [load, read, refused]
  rfl

/-- An image that was read is loaded exactly if it is one for this machine and all its segments
fit. -/
private theorem load_of_read (read : reader file = .ok image) {ram : Ram}
    (room : ram.size < 2 ^ 63) : ((∃ info after, load reader file ram = .ok info after) ↔
        image.header.Supported ∧ ∀ s ∈ loaded image.segments, s.Fits file ram) ∧
      (∀ info after, load reader file ram = .ok info after →
        Placed file (loaded image.segments) ram after) ∧
      ∀ fault after, load reader file ram ≠ .error (.memory fault) after := by
  cases checked : image.header.check with
  | error e =>
    have unsupported : ¬ image.header.Supported := by
      rw [← Header.check_eq_ok_iff, checked]
      nofun
    rw [load_of_refused read checked]
    refine ⟨iff_of_false nofun fun ⟨good, _⟩ => unsupported good, nofun, ?_⟩
    rintro fault after ⟨⟩
    exact Header.check_ne_memory checked
  | ok _ =>
    rw [load_of_checked read checked]
    rcases loadSegments_cases file image.segments room with
      ⟨fits, after, done, placed⟩ | ⟨⟨s, found, misfit⟩, e, after, failed, other⟩
    · simp only [done]
      refine ⟨iff_of_true ⟨_, _, rfl⟩ ⟨Header.check_eq_ok_iff.1 checked, fits⟩, ?_, nofun⟩
      rintro _ _ ⟨⟩
      exact placed
    · simp only [failed]
      refine ⟨iff_of_false nofun fun ⟨_, fits⟩ => misfit (fits s found), nofun, ?_⟩
      rintro fault _ ⟨⟩
      exact other fault rfl

end Reading

/-- A file that is accepted is loaded exactly if the image that is encoded in it is one for this
machine and all its segments fit. Memory then holds at each address the byte of the last segment
that covers it, and what it held before where none does. Whatever the file says, no write to memory
fails. Memory is shorter than the largest block of bytes that there can be. -/
theorem load_places_segments {reader : Reader} (faithful : reader.Faithful) (file : ByteArray)
    {ram : Ram} (room : ram.size < 2 ^ 63) :
    (∀ image, Encodes file image → (∃ answer, reader file = .ok answer) →
      ((∃ info after, load reader file ram = .ok info after) ↔
        image.header.Supported ∧ ∀ s ∈ loaded image.segments, s.Fits file ram) ∧
      ∀ info after, load reader file ram = .ok info after →
        Placed file (loaded image.segments) ram after) ∧
    ∀ fault after, load reader file ram ≠ .error (.memory fault) after := by
  cases read : reader file with
  | error cause =>
    rw [load_of_malformed read]
    exact ⟨nofun, nofun⟩
  | ok answer =>
    obtain ⟨succeeds, placed, harmless⟩ := load_of_read read room
    refine ⟨fun image encoded _ => ?_, harmless⟩
    obtain ⟨header, segments⟩ := encoded.unique (faithful file answer read)
    rw [header, segments]
    exact ⟨succeeds, placed⟩

/-- A 32-bit image with two segments. The second one overlaps the end of what the first one has in
the file, and has one byte of its own there. -/
def overlapping : ByteArray := ⟨#[
  0x7f, 0x45, 0x4c, 0x46, 1, 1, 1, 0, 0, 0, 0, 0, 0, 0, 0, 0,
  2, 0, 243, 0, 1, 0, 0, 0, 0, 0, 0, 0x80, 52, 0, 0, 0, 0, 0, 0, 0,
  0, 0, 0, 0, 52, 0, 32, 0, 2, 0, 40, 0, 0, 0, 0, 0,
  1, 0, 0, 0, 0, 0, 0, 0, 0, 0, 0, 0, 0, 0, 0, 0x80,
  4, 0, 0, 0, 6, 0, 0, 0, 0, 0, 0, 0, 0, 0, 0, 0,
  1, 0, 0, 0, 1, 0, 0, 0, 0, 0, 0, 0, 2, 0, 0, 0x80,
  1, 0, 0, 0, 2, 0, 0, 0, 0, 0, 0, 0, 0, 0, 0, 0]⟩

def overlappingImage : Image where
  header := ⟨1, 1, 2, 243, 0x80000000⟩
  segments := [⟨1, 0, 0x80000000, 4, 6⟩, ⟨1, 1, 0x80000002, 1, 2⟩]
  symbols := []

/-- The first segment fills six bytes, the second one replaces two of them, and two are left. -/
theorem load_places_segments_overlapping :
    fileReader.Faithful ∧ Encodes overlapping overlappingImage ∧
    ∃ info after, load fileReader overlapping ⟨⟨Array.replicate 8 0xff⟩⟩ = .ok info after ∧
      ∀ i < 8, after.byteAt i = [0x7f, 0x45, 0x45, 0, 0, 0, 0xff, 0xff].getD i 0 := by
  have found : Image.read? overlapping = some overlappingImage := by decide +kernel
  have read : fileReader overlapping = .ok overlappingImage := by rw [fileReader, found]
  have room : Ram.size ⟨⟨Array.replicate 8 0xff⟩⟩ < 2 ^ 63 := by
    show 8 < 2 ^ 63
    norm_num
  have encoded := fileReader_faithful overlapping overlappingImage read
  rcases (load_places_segments fileReader_faithful overlapping room).1 overlappingImage encoded
    ⟨_, read⟩ with ⟨succeeds, placed⟩
  have fits : ∀ s ∈ loaded overlappingImage.segments,
      s.Fits overlapping ⟨⟨Array.replicate 8 0xff⟩⟩ :=
    List.forall_mem_cons.2 ⟨⟨by decide +kernel, by decide, by decide, by decide⟩,
      List.forall_mem_singleton.2 ⟨by decide +kernel, by decide, by decide, by decide⟩⟩
  rcases succeeds.2 ⟨⟨.inl rfl, rfl, rfl, .inl rfl⟩, fits⟩ with ⟨info, after, done⟩
  refine ⟨fileReader_faithful, encoded, info, after, done, fun i short => ?_⟩
  rw [(placed info after done).byte i short]
  interval_cases i <;> rfl

end Elf

end RiscvBoard
