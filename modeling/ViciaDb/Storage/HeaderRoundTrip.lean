import ViciaDb.Storage.HeaderPage

namespace ViciaDb

open ByteReader BTree List Except
open FieldRecord (length_toBytes of_fromBytes)
open ProjectionCatalogSlot (toBytes)

namespace HeaderPage

variable (crc32 : Bytes → UInt32)

/-- What the functions that make an extension can make, of numbers that fit their types. -/
inductive Constructed : HeaderExtension → Prop
  | new {primary secondary : HeaderManifestSlot} (fits : HeaderManifestSlot.layout.Fits primary)
      (fits' : HeaderManifestSlot.layout.Fits secondary) : Constructed (.new crc32 primary secondary)
  | baseStart {extension next : HeaderExtension} {start : Nat} (prior : Constructed extension)
      (fits : start < 2 ^ 64) (set : extension.withBaseFactPageStart crc32 start = .ok next) : Constructed next
  | integrity {extension next : HeaderExtension} {descriptor : BasePageIntegrityDescriptor}
      (prior : Constructed extension) (fits : BasePageIntegrityDescriptor.layout.Fits descriptor)
      (set : extension.withBaseIntegrity crc32 descriptor = .ok next) : Constructed next
  | projections {extension next : HeaderExtension} {primary secondary : ProjectionCatalogSlot}
      (prior : Constructed extension) (fits : ProjectionCatalogSlot.layout.Fits primary)
      (fits' : ProjectionCatalogSlot.layout.Fits secondary)
      (set : extension.withProjectionCatalogSlots crc32 primary secondary = .ok next) : Constructed next

structure Readable (extension : HeaderExtension) : Prop where
  primary : HeaderManifestSlot.layout.Fits extension.primary
  secondary : HeaderManifestSlot.layout.Fits extension.secondary
  start : extension.baseFactPageStart ≠ 0
  startFits : extension.baseFactPageStart < 2 ^ 64
  checksum : extension.baseLayoutChecksum = computeBaseLayoutChecksum crc32 extension.baseFactPageStart
  integrity : BasePageIntegrityDescriptor.layout.Fits extension.baseIntegrity
  layout : extension.baseIntegrity.validateLayout = .ok ()
  valid : extension.baseIntegrity.checksumValid crc32
  covers : extension.baseIntegrity = .empty ∨
    extension.baseIntegrity.coveredPageStart = extension.baseFactPageStart
  projectionPrimary : ProjectionCatalogSlot.layout.Fits extension.projectionPrimary
  projectionSecondary : ProjectionCatalogSlot.layout.Fits extension.projectionSecondary

variable {crc32}

theorem fits_emptyIntegrity : BasePageIntegrityDescriptor.layout.Fits .empty := by
  change FieldsFit [8, 8, 8, 8, 8, 8, 4, 4] [0, 0, 0, 0, 0, 0, 0, 0]
  simp

theorem fits_emptyProjection : ProjectionCatalogSlot.layout.Fits .empty := by
  change FieldsFit [8, 8, 8, 8, 4, 4] [0, 0, 0, 0, 0, 0]
  simp

theorem Constructed.readable {extension : HeaderExtension} (made : Constructed crc32 extension) :
    Readable crc32 extension := by
  induction made with
  | new fits fits' =>
    exact ⟨fits, fits', Nat.one_ne_zero, by simp [HeaderExtension.new], rfl, fits_emptyIntegrity, rfl, .inl rfl,
      .inl rfl, fits_emptyProjection, fits_emptyProjection⟩
  | baseStart prior fits set ih =>
    simp only [HeaderExtension.withBaseFactPageStart, ensure_bind_eq_ok_iff] at set
    obtain ⟨some, covers, isNext⟩ := set
    cases isNext
    exact ⟨ih.primary, ih.secondary, some, fits, rfl, ih.integrity, ih.layout, ih.valid, covers,
      ih.projectionPrimary, ih.projectionSecondary⟩
  | integrity prior fits set ih =>
    simp only [HeaderExtension.withBaseIntegrity, bind_eq_ok_iff, ensure_eq_ok_iff] at set
    obtain ⟨_, layout, -, valid, -, covers, isNext⟩ := set
    cases isNext
    exact ⟨ih.primary, ih.secondary, ih.start, ih.startFits, ih.checksum, fits, layout, valid, covers,
      ih.projectionPrimary, ih.projectionSecondary⟩
  | projections prior fits fits' set ih =>
    simp only [HeaderExtension.withProjectionCatalogSlots, ensure_bind_eq_ok_iff] at set
    obtain ⟨-, isNext⟩ := set
    cases isNext
    exact ⟨ih.primary, ih.secondary, ih.start, ih.startFits, ih.checksum, ih.integrity, ih.layout, ih.valid,
      ih.covers, fits, fits'⟩

section Sections

variable {magic version primary secondary start checksum rest : Bytes}

structure Sections (bytes magic version primary secondary start checksum rest : Bytes) : Prop where
  magic : slice bytes 0 8 = magic
  version : slice bytes 8 4 = version
  primary : slice bytes 12 40 = primary
  secondary : slice bytes 52 40 = secondary
  start : slice bytes 92 8 = start
  checksum : slice bytes 100 4 = checksum
  rest : bytes.drop 104 = rest

theorem sections_append (lengths : magic.length = 8 ∧ version.length = 4 ∧ primary.length = 40 ∧
      secondary.length = 40 ∧ start.length = 8 ∧ checksum.length = 4) :
    Sections (magic ++ (version ++ (primary ++ (secondary ++ (start ++ (checksum ++ rest))))))
      magic version primary secondary start checksum rest := by
  obtain ⟨eight, four, forty, forty', eight', four'⟩ := lengths
  constructor <;>
    simp [slice, drop_append, eight, four, forty, forty', eight', four', drop_eq_nil_of_le]

theorem append_sections (bytes : Bytes) :
    slice bytes 0 8 ++ (slice bytes 8 4 ++ (slice bytes 12 40 ++ (slice bytes 52 40 ++ (slice bytes 92 8 ++
      (slice bytes 100 4 ++ bytes.drop 104))))) = bytes := by
  rw [slice_append_drop _ (rfl : 100 + 4 = 104), slice_append_drop _ (rfl : 92 + 8 = 100),
    slice_append_drop _ (rfl : 52 + 40 = 92), slice_append_drop _ (rfl : 12 + 40 = 52),
    slice_append_drop _ (rfl : 8 + 4 = 12), slice_append_drop _ (rfl : 0 + 8 = 8), drop_zero]

end Sections

theorem extensionKind_cases {version : Nat} {kind : Bytes × Nat} (known : extensionKind version = .ok kind) :
    (version = 10 ∧ kind.2 = 104) ∨ ((version = 11 ∨ version = 12) ∧ kind.2 = 160) ∨
      (version = 13 ∧ kind.2 = 240) := by
  rw [extensionKind.eq_def] at known
  split at known
  · exact .inl ⟨rfl, (Except.ok.inj known) ▸ rfl⟩
  · exact .inr (.inl ⟨.inl rfl, (Except.ok.inj known) ▸ rfl⟩)
  · exact .inr (.inl ⟨.inr rfl, (Except.ok.inj known) ▸ rfl⟩)
  · exact .inr (.inr ⟨rfl, (Except.ok.inj known) ▸ rfl⟩)
  · cases known

theorem extensionKind_magic {version : Nat} {kind : Bytes × Nat} (known : extensionKind version = .ok kind) :
    kind.1.length = 8 ∧ kind.1.any (· ≠ 0) = true := by
  rw [extensionKind.eq_def] at known
  split at known <;> first | (cases known; exact ⟨rfl, rfl⟩) | cases known

variable {slot : ProjectionCatalogSlot}

section Write

variable {extension : HeaderExtension} {version : Nat} {bytes : Bytes}

theorem HeaderManifestSlot.fromBytes_toBytes {slot : HeaderManifestSlot}
    (fits : HeaderManifestSlot.layout.Fits slot) : HeaderManifestSlot.fromBytes slot.toBytes = .ok slot := by
  rw [HeaderManifestSlot.fromBytes, HeaderManifestSlot.toBytes, FieldRecord.fromBytes_toBytes fits]
  rfl

theorem ProjectionCatalogSlot.fromBytes_toBytes (fits : ProjectionCatalogSlot.layout.Fits slot) :
    ProjectionCatalogSlot.fromBytes slot.toBytes = .ok slot := by
  rw [ProjectionCatalogSlot.fromBytes, toBytes, FieldRecord.fromBytes_toBytes fits]
  rfl

variable (readable : Readable crc32 extension)

include readable in
theorem readBaseLayout_written :
    HeaderExtension.readBaseLayout crc32 (ofLeBytes (leBytes 8 extension.baseFactPageStart))
      (ofLeBytes (leBytes 4 extension.baseLayoutChecksum.toNat)) = .ok extension.baseFactPageStart := by
  have some := readable.start
  rw [ofLeBytes_leBytes 8 _ readable.startFits, ofLeBytes_leBytes 4 _ (UInt32.toNat_lt _),
    HeaderExtension.readBaseLayout, if_neg (fun zero => some zero.1), readable.checksum]
  simp [ensure, some]
  rfl

include readable in
theorem readIntegrity_written :
    BasePageIntegrityDescriptor.fromBytes crc32 extension.baseIntegrity.toBytes = .ok extension.baseIntegrity := by
  rw [BasePageIntegrityDescriptor.fromBytes, BasePageIntegrityDescriptor.toBytes,
    FieldRecord.fromBytes_toBytes readable.integrity]
  change (if extension.baseIntegrity = .empty then _ else _) = _
  split
  · rfl
  · rw [readable.layout]
    rw [ensure, if_pos readable.valid]
    rfl

structure Written (extension : HeaderExtension) (version : Nat) (bytes : Bytes) (kind : Bytes × Nat)
    (integrity projections : Bytes) : Prop where
  isKind : extensionKind version = .ok kind
  isIntegrity : extension.integrityBytes version = .ok integrity
  isProjections : extension.projectionBytes version = .ok projections
  isBytes : bytes = kind.1 ++ (leBytes 4 version ++ (extension.primary.toBytes ++ (extension.secondary.toBytes ++
    (leBytes 8 extension.baseFactPageStart ++ (leBytes 4 extension.baseLayoutChecksum.toNat ++
      (integrity ++ projections))))))

theorem toBytesForVersion_iff : extension.toBytesForVersion version = .ok bytes ↔
    ∃ kind integrity projections, Written extension version bytes kind integrity projections := by
  simp only [HeaderExtension.toBytesForVersion, bind_eq_ok_iff]
  constructor
  · rintro ⟨kind, isKind, integrity, isIntegrity, projections, isProjections, isBytes⟩
    exact ⟨kind, integrity, projections, isKind, isIntegrity, isProjections, (Except.ok.inj isBytes).symm⟩
  · rintro ⟨kind, integrity, projections, isKind, isIntegrity, isProjections, rfl⟩
    exact ⟨kind, isKind, integrity, isIntegrity, projections, isProjections, rfl⟩

variable {kind : Bytes × Nat} {integrity projections : Bytes}

section

variable (written : Written extension version bytes kind integrity projections)
include written

theorem Written.sections :
    Sections bytes kind.1 (leBytes 4 version) extension.primary.toBytes extension.secondary.toBytes
      (leBytes 8 extension.baseFactPageStart) (leBytes 4 extension.baseLayoutChecksum.toNat)
      (integrity ++ projections) := by
  rw [written.isBytes]
  exact sections_append ⟨(extensionKind_magic written.isKind).1, length_leBytes _ _,
    length_toBytes _, length_toBytes _, length_leBytes _ _, length_leBytes _ _⟩

theorem Written.integrity_eq : (11 ≤ version ∧ integrity = extension.baseIntegrity.toBytes) ∨
      (version < 11 ∧ integrity = [] ∧ extension.baseIntegrity = .empty) := by
  have known := written.isIntegrity
  rw [HeaderExtension.integrityBytes] at known
  split at known
  · exact .inl ⟨‹_›, (Except.ok.inj known).symm⟩
  · split at known
    · exact .inr ⟨Nat.not_le.mp ‹_›, (Except.ok.inj known).symm, ‹_›⟩
    · cases known

theorem Written.projections_eq :
    (13 ≤ version ∧ projections = extension.projectionPrimary.toBytes ++ extension.projectionSecondary.toBytes) ∨
      (version < 13 ∧ projections = [] ∧ extension.projectionPrimary = .empty ∧
        extension.projectionSecondary = .empty) := by
  have known := written.isProjections
  rw [HeaderExtension.projectionBytes] at known
  split at known
  · exact .inl ⟨‹_›, (Except.ok.inj known).symm⟩
  · split at known
    · rename_i empty
      exact .inr ⟨Nat.not_le.mp ‹_›, (Except.ok.inj known).symm, empty⟩
    · cases known

end

theorem length_slotBytes (slot : ProjectionCatalogSlot) : slot.toBytes.length = 40 :=
  length_toBytes slot

theorem length_integrityBytes (descriptor : BasePageIntegrityDescriptor) : descriptor.toBytes.length = 56 :=
  length_toBytes descriptor

section

variable (written : Written extension version bytes kind integrity projections)
include written

theorem Written.length_eq : bytes.length = kind.2 := by
  have magic := (extensionKind_magic written.isKind).1
  have primary : extension.primary.toBytes.length = 40 := length_toBytes _
  have secondary : extension.secondary.toBytes.length = 40 := length_toBytes _
  have total : bytes.length = 104 + integrity.length + projections.length := by
    rw [written.isBytes]
    simp only [length_append, length_leBytes, magic, primary, secondary]
    omega
  rcases written.integrity_eq with ⟨new, rfl⟩ | ⟨old, rfl, -⟩ <;>
    rcases written.projections_eq with ⟨new', rfl⟩ | ⟨old', rfl, -⟩ <;>
    rcases extensionKind_cases written.isKind with ⟨isVersion, long⟩ | ⟨isVersion, long⟩ | ⟨isVersion, long⟩ <;>
    simp only [length_append, length_slotBytes, length_integrityBytes, length_nil] at total <;> omega

include readable in
theorem Written.readIntegrity :
    HeaderExtension.readIntegrity crc32 version bytes = .ok extension.baseIntegrity := by
  rw [HeaderExtension.readIntegrity]
  rcases written.integrity_eq with ⟨new, rfl⟩ | ⟨old, -, empty⟩
  · rw [if_pos new, slice, written.sections.rest, take_left' (length_integrityBytes _)]
    exact readIntegrity_written readable
  · rw [if_neg (Nat.not_le.mpr old), empty]

include readable in
theorem Written.readProjections : HeaderExtension.readProjections version bytes =
      .ok (extension.projectionPrimary, extension.projectionSecondary) := by
  rw [HeaderExtension.readProjections]
  rcases written.projections_eq with ⟨new, rfl⟩ | ⟨old, -, primary, secondary⟩
  swap
  · rw [if_neg (Nat.not_le.mpr old), primary, secondary]
  obtain ⟨-, rfl⟩ : 11 ≤ version ∧ integrity = extension.baseIntegrity.toBytes := by
    rcases written.integrity_eq with later | ⟨old, -, -⟩
    · exact later
    · omega
  have front : slice bytes 160 40 = extension.projectionPrimary.toBytes := by
    rw [slice, show 160 = 104 + 56 from rfl, ← drop_drop, written.sections.rest,
      drop_left' (length_integrityBytes _), take_left' (length_slotBytes _)]
  have back : slice bytes 200 40 = extension.projectionSecondary.toBytes := by
    rw [slice, show 200 = 104 + 56 + 40 from rfl, ← drop_drop, ← drop_drop, written.sections.rest,
      drop_left' (length_integrityBytes _), drop_left' (length_slotBytes _),
      take_of_length_le (length_slotBytes _).le]
  rw [if_pos new, front, back, ProjectionCatalogSlot.fromBytes_toBytes readable.projectionPrimary,
    ProjectionCatalogSlot.fromBytes_toBytes readable.projectionSecondary]
  rfl

include readable in
theorem Written.readSections :
    HeaderExtension.readSections crc32 version bytes = .ok extension := by
  have sections := written.sections
  rw [HeaderExtension.readSections, sections.primary, sections.secondary, sections.start, sections.checksum,
    HeaderManifestSlot.fromBytes_toBytes readable.primary,
    HeaderManifestSlot.fromBytes_toBytes readable.secondary, readBaseLayout_written readable,
    written.readIntegrity readable, written.readProjections readable]
  change (ensure _ _ >>= _) = _
  rw [ensure, if_pos readable.covers, ← readable.checksum]
  rfl

end

include readable in
theorem readFromPage0_written (encoded : extension.toBytesForVersion version = .ok bytes)
    (fits : version < 256 ^ 4) {front back : Bytes} (offset : front.length = headerExtensionOffset) :
    HeaderExtension.readFromPage0 crc32 version (front ++ bytes ++ back) = .ok (some extension) := by
  obtain ⟨kind, integrity, projections, written⟩ := toBytesForVersion_iff.mp encoded
  have length := written.length_eq
  have part : slice (front ++ bytes ++ back) headerExtensionOffset kind.2 = bytes := by
    rw [slice, append_assoc, drop_left' offset, take_left' length]
  have late : ¬version < 10 := by
    rcases extensionKind_cases written.isKind with ⟨isVersion, -⟩ | ⟨isVersion, -⟩ | ⟨isVersion, -⟩ <;> omega
  have long : ¬(front ++ bytes ++ back).length < headerExtensionOffset := by
    rw [length_append, length_append, offset]
    omega
  have some : bytes.any (· ≠ 0) = true := by
    rw [written.isBytes, any_append, (extensionKind_magic written.isKind).2]
    rfl
  rw [HeaderExtension.readFromPage0, if_neg long, if_neg late, written.isKind]
  simp only [bind, Except.bind, ensure]
  rw [part, if_pos length, if_pos some, if_pos written.sections.magic, written.sections.version,
    ofLeBytes_leBytes 4 _ fits, if_pos rfl, written.readSections readable]
  rfl

end Write

section Read

variable {extension : HeaderExtension} {version : Nat} {bytes : Bytes} {kind : Bytes × Nat}

def spelledLayout (crc32 : Bytes → UInt32) (raw : Bytes) : Bytes :=
  if raw = List.replicate 12 0 then leBytes 8 1 ++ leBytes 4 (computeBaseLayoutChecksum crc32 1).toNat else raw

def spelledOut (crc32 : Bytes → UInt32) (bytes : Bytes) : Bytes :=
  bytes.take 92 ++ (spelledLayout crc32 (slice bytes 92 12) ++ bytes.drop 104)

theorem replicate_of_ofLeBytes {raw : Bytes} (zero : ofLeBytes raw = 0) : raw = List.replicate raw.length 0 := by
  have back := leBytes_ofLeBytes raw
  have zeros : ∀ width, leBytes width 0 = List.replicate width 0 := by
    intro width
    induction width with
    | zero => rfl
    | succ width ih => rw [leBytes, Nat.zero_div, ih]; rfl
  rw [zero, zeros] at back
  exact back.symm

theorem ofLeBytes_replicate (count : Nat) : ofLeBytes (List.replicate count 0) = 0 := by
  induction count with
  | zero => rfl
  | succ count ih => rw [replicate_succ, ofLeBytes, ih]; rfl

theorem layout_of_read {start : Nat} {front back : Bytes} (eight : front.length = 8) (four : back.length = 4)
    (isRead : HeaderExtension.readBaseLayout crc32 (ofLeBytes front) (ofLeBytes back) = .ok start) :
    leBytes 8 start ++ leBytes 4 (computeBaseLayoutChecksum crc32 start).toNat =
      spelledLayout crc32 (front ++ back) := by
  rw [HeaderExtension.readBaseLayout] at isRead
  split at isRead
  · rename_i zero
    cases isRead
    rw [replicate_of_ofLeBytes zero.1, replicate_of_ofLeBytes zero.2, eight, four, spelledLayout]
    exact (if_pos rfl).symm
  · simp only [ensure_bind_eq_ok_iff] at isRead
    obtain ⟨some, checksum, isStart⟩ := isRead
    cases isStart
    have low := leBytes_ofLeBytes front
    have high := leBytes_ofLeBytes back
    rw [eight] at low
    rw [four, checksum] at high
    rw [low, high, spelledLayout, if_neg]
    intro zeros
    refine some ?_
    have zero := congrArg (List.take 8) zeros
    rw [take_left' eight] at zero
    rw [zero]
    exact ofLeBytes_replicate 8

theorem slot_of_read {slot : HeaderManifestSlot} (isRead : HeaderManifestSlot.fromBytes bytes = .ok slot) :
    slot.toBytes = bytes := by
  rw [HeaderManifestSlot.fromBytes] at isRead
  cases found : HeaderManifestSlot.layout.fromBytes bytes with
  | none => rw [found] at isRead; cases isRead
  | some other =>
    rw [found] at isRead
    cases isRead
    exact (of_fromBytes found).1

theorem projection_of_read (isRead : ProjectionCatalogSlot.fromBytes bytes = .ok slot) :
    slot.toBytes = bytes := by
  rw [ProjectionCatalogSlot.fromBytes] at isRead
  cases found : ProjectionCatalogSlot.layout.fromBytes bytes with
  | none => rw [found] at isRead; cases isRead
  | some other =>
    rw [found] at isRead
    cases isRead
    exact (of_fromBytes found).1

theorem integrity_of_read {descriptor : BasePageIntegrityDescriptor}
    (isRead : BasePageIntegrityDescriptor.fromBytes crc32 bytes = .ok descriptor) : descriptor.toBytes = bytes := by
  rw [BasePageIntegrityDescriptor.fromBytes] at isRead
  cases found : BasePageIntegrityDescriptor.layout.fromBytes bytes with
  | none => rw [found] at isRead; cases isRead
  | some other =>
    rw [found] at isRead
    have same : other = descriptor := by
      change (if other = .empty then _ else _) = _ at isRead
      split at isRead
      · exact Except.ok.inj isRead
      · simp only [bind_eq_ok_iff] at isRead
        obtain ⟨-, -, -, -, isOther⟩ := isRead
        exact Except.ok.inj isOther
    exact same ▸ (of_fromBytes found).1

structure SectionsRead (crc32 : Bytes → UInt32) (version : Nat) (bytes : Bytes) (extension : HeaderExtension) :
    Prop where
  primary : HeaderManifestSlot.fromBytes (slice bytes 12 40) = .ok extension.primary
  secondary : HeaderManifestSlot.fromBytes (slice bytes 52 40) = .ok extension.secondary
  start : HeaderExtension.readBaseLayout crc32 (ofLeBytes (slice bytes 92 8)) (ofLeBytes (slice bytes 100 4)) =
    .ok extension.baseFactPageStart
  checksum : extension.baseLayoutChecksum = computeBaseLayoutChecksum crc32 extension.baseFactPageStart
  integrity : HeaderExtension.readIntegrity crc32 version bytes = .ok extension.baseIntegrity
  projections : HeaderExtension.readProjections version bytes =
    .ok (extension.projectionPrimary, extension.projectionSecondary)

theorem sectionsRead (isRead : HeaderExtension.readSections crc32 version bytes = .ok extension) :
    SectionsRead crc32 version bytes extension := by
  simp only [HeaderExtension.readSections, bind_eq_ok_iff] at isRead
  obtain ⟨_, primary, _, secondary, _, start, _, integrity, -, -, ⟨_, _⟩, projections, isExtension⟩ := isRead
  cases isExtension
  exact ⟨primary, secondary, start, rfl, integrity, projections⟩

theorem SectionsRead.integrityBytes (sections : SectionsRead crc32 version bytes extension)
    (known : extensionKind version = .ok kind) (length : bytes.length = kind.2) :
    extension.integrityBytes version = .ok (slice bytes 104 56) ∧
      (version < 11 → extension.baseIntegrity = .empty) := by
  have isRead := sections.integrity
  rw [HeaderExtension.readIntegrity] at isRead
  rw [HeaderExtension.integrityBytes]
  split at isRead
  · rename_i new
    rw [if_pos new, integrity_of_read isRead]
    exact ⟨rfl, fun old => absurd new (Nat.not_le.mpr old)⟩
  rename_i old
  have isEmpty : extension.baseIntegrity = .empty := (Except.ok.inj isRead).symm
  rw [if_neg old, if_pos isEmpty]
  refine ⟨congrArg _ (Eq.symm ?_), fun _ => isEmpty⟩
  rw [slice, drop_eq_nil_of_le, take_nil]
  rcases extensionKind_cases known with ⟨-, long⟩ | ⟨late, -⟩ | ⟨late, -⟩ <;> omega

theorem SectionsRead.projectionBytes (sections : SectionsRead crc32 version bytes extension)
    (known : extensionKind version = .ok kind) (length : bytes.length = kind.2) :
    extension.projectionBytes version = .ok (bytes.drop 160) ∧
      (version < 13 → extension.projectionPrimary = .empty ∧ extension.projectionSecondary = .empty) := by
  have isRead := sections.projections
  rw [HeaderExtension.readProjections] at isRead
  rw [HeaderExtension.projectionBytes]
  split at isRead
  · rename_i new
    simp only [bind_eq_ok_iff] at isRead
    obtain ⟨primary, isPrimary, secondary, isSecondary, both⟩ := isRead
    obtain ⟨rfl, rfl⟩ := Prod.mk.inj (Except.ok.inj both)
    rw [if_pos new, projection_of_read isPrimary, projection_of_read isSecondary]
    refine ⟨congrArg _ ?_, fun old => absurd new (Nat.not_le.mpr old)⟩
    have last : slice bytes 200 40 = bytes.drop 200 := by
      refine take_of_length_le ?_
      rw [length_drop]
      rcases extensionKind_cases known with ⟨old, -⟩ | ⟨old, -⟩ | ⟨-, long⟩ <;> omega
    rw [last, slice_append_drop _ (rfl : 160 + 40 = 200)]
  · rename_i old
    obtain ⟨primary, secondary⟩ := Prod.mk.inj (Except.ok.inj isRead)
    rw [if_neg old, if_pos ⟨primary.symm, secondary.symm⟩]
    refine ⟨congrArg _ (drop_eq_nil_of_le ?_).symm, fun _ => ⟨primary.symm, secondary.symm⟩⟩
    rcases extensionKind_cases known with ⟨-, long⟩ | ⟨-, long⟩ | ⟨late, -⟩ <;> omega

theorem SectionsRead.toBytesForVersion (sections : SectionsRead crc32 version bytes extension)
    (known : extensionKind version = .ok kind) (length : bytes.length = kind.2)
    (magic : slice bytes 0 8 = kind.1) (isVersion : ofLeBytes (slice bytes 8 4) = version) :
    extension.toBytesForVersion version = .ok (spelledOut crc32 bytes) := by
  have long : 104 ≤ bytes.length := by
    rcases extensionKind_cases known with ⟨-, long⟩ | ⟨-, long⟩ | ⟨-, long⟩ <;> omega
  have versionBytes := leBytes_ofLeBytes (slice bytes 8 4)
  rw [length_slice (by omega), isVersion] at versionBytes
  have layout := layout_of_read (length_slice (by omega)) (length_slice (by omega)) sections.start
  have twelve : slice bytes 92 8 ++ slice bytes 100 4 = slice bytes 92 12 := by
    rw [slice, slice, slice, show 100 = 92 + 8 from rfl, ← drop_drop, ← take_add]
  have front : slice bytes 0 8 ++ (slice bytes 8 4 ++ (slice bytes 12 40 ++ slice bytes 52 40)) = bytes.take 92 := by
    have all := append_sections bytes
    rw [← append_assoc (slice bytes 12 40), ← append_assoc (slice bytes 8 4),
      ← append_assoc (slice bytes 0 8)] at all
    conv => rhs; rw [← all]
    rw [take_left']
    simp only [length_append]
    rw [length_slice (by omega), length_slice (by omega), length_slice (by omega), length_slice (by omega)]
  rw [toBytesForVersion_iff]
  refine ⟨kind, _, _, known, (sections.integrityBytes known length).1, (sections.projectionBytes known length).1, ?_⟩
  rw [slot_of_read sections.primary, slot_of_read sections.secondary, sections.checksum, versionBytes, ← magic,
    slice_append_drop _ (rfl : 104 + 56 = 160), spelledOut, ← front, ← twelve, ← layout]
  simp only [append_assoc]

end Read

section Page

variable {header : FileHeader} {extension : HeaderExtension} {page : Bytes}

theorem length_headerBytes (header : FileHeader) : header.toBytes.length = headerExtensionOffset :=
  length_toBytes header

theorem buildHeaderPage_eq_ok {page : Bytes} : buildHeaderPageWithExtension header extension = .ok page ↔
    header.validate = .ok () ∧ (10 ≤ header.version ∧ header.version ≤ 13) ∧
      ∃ bytes, extension.toBytesForVersion header.version = .ok bytes ∧
        page = header.toBytes ++ bytes ++
          (header.toBytes ++ List.replicate (pageSize - header.toBytes.length) 0).drop
            (headerExtensionOffset + bytes.length) := by
  simp only [buildHeaderPageWithExtension, bind_eq_ok_iff, ensure_eq_ok_iff]
  rw [take_left' (length_headerBytes header)]
  constructor
  · rintro ⟨_, valid, -, version, bytes, encoded, isPage⟩
    exact ⟨valid, version, bytes, encoded, (Except.ok.inj isPage).symm⟩
  · rintro ⟨valid, version, bytes, encoded, rfl⟩
    exact ⟨(), valid, (), version, bytes, encoded, rfl⟩

theorem fromBytes_of_read (isRead : FileHeader.layout.read page = some header) (isMagic : header.magic = magicNumber)
    (late : 10 ≤ header.version) (long : headerExtensionOffset ≤ page.length) :
    FileHeader.fromBytes page = .ok header := by
  have long : 84 ≤ page.length := long
  rw [FileHeader.fromBytes, if_neg (by omega), isRead]
  simp only [isMagic, ne_eq, not_true_eq_false, if_false]
  rw [if_neg (by omega), if_neg (by omega), if_neg (by omega), if_neg (by omega), if_pos (by omega),
    if_pos (by omega), ← isMagic]

theorem read_of_fromBytes (accepted : FileHeader.fromBytes page = .ok header) (late : 10 ≤ header.version) :
    FileHeader.layout.read page = some header ∧ headerExtensionOffset ≤ page.length := by
  rw [FileHeader.fromBytes] at accepted
  split at accepted
  · cases accepted
  cases found : FileHeader.layout.read page with
  | none => rw [found] at accepted; cases accepted
  | some other =>
    simp only [found] at accepted
    split at accepted
    · cases accepted
    split at accepted
    · cases accepted
      dsimp only at late
      omega
    split at accepted
    · cases accepted
    split at accepted
    · cases accepted
    split at accepted
    · cases accepted
    rename_i long
    cases accepted
    dsimp only at late long ⊢
    rw [if_pos (by omega), if_pos (by omega)]
    refine ⟨rfl, ?_⟩
    change 84 ≤ page.length
    omega

theorem buildHeaderPage_readsBack (made : Constructed crc32 extension) (fits : FileHeader.layout.Fits header)
    (built : buildHeaderPageWithExtension header extension = .ok page) :
    FileHeader.fromBytes page = .ok header ∧
      HeaderExtension.readFromPage0 crc32 header.version page = .ok (some extension) := by
  obtain ⟨valid, version, bytes, encoded, rfl⟩ := buildHeaderPage_eq_ok.mp built
  have isMagic : header.magic = magicNumber := by
    simp only [FileHeader.validate, ensure_bind_eq_ok_iff] at valid
    exact valid.1
  refine ⟨fromBytes_of_read ?_ isMagic version.1 ?_,
    readFromPage0_written made.readable encoded (by omega) (length_headerBytes header)⟩
  · rw [append_assoc]
    exact FieldRecord.read_toBytes fits _
  · rw [append_assoc, length_append, length_headerBytes]
    exact Nat.le_add_right _ _

theorem readFromPage0_writesBack (accepted : FileHeader.fromBytes page = .ok header)
    (valid : header.validate = .ok ())
    (isRead : HeaderExtension.readFromPage0 crc32 header.version page = .ok (some extension)) :
    ∃ kind page', extensionKind header.version = .ok kind ∧
      buildHeaderPageWithExtension header extension = .ok page' ∧
      page'.take headerExtensionOffset = page.take headerExtensionOffset ∧
      slice page' headerExtensionOffset kind.2 = spelledOut crc32 (slice page headerExtensionOffset kind.2) ∧
      (header.version < 11 → extension.baseIntegrity = .empty) ∧
      (header.version < 13 → extension.projectionPrimary = .empty ∧ extension.projectionSecondary = .empty) := by
  rw [HeaderExtension.readFromPage0] at isRead
  split at isRead
  · cases isRead
  split at isRead
  · cases isRead
  rename_i late
  simp only [bind_eq_ok_iff, ensure_eq_ok_iff] at isRead
  obtain ⟨kind, known, -, length, -, -, -, magic, -, isVersion, read, isSections, isExtension⟩ := isRead
  cases isExtension
  have sections := sectionsRead isSections
  have encoded := sections.toBytesForVersion known length magic isVersion
  obtain ⟨_, _, _, written⟩ := toBytesForVersion_iff.mp encoded
  have sameKind := Except.ok.inj (known.symm.trans written.isKind)
  have spelled : (spelledOut crc32 (slice page headerExtensionOffset kind.2)).length = kind.2 := by
    rw [written.length_eq, sameKind]
  have version : 10 ≤ header.version ∧ header.version ≤ 13 := by
    rcases extensionKind_cases known with ⟨at_, -⟩ | ⟨at_, -⟩ | ⟨at_, -⟩ <;> omega
  obtain ⟨front, long⟩ := read_of_fromBytes accepted version.1
  refine ⟨kind, _, known, buildHeaderPage_eq_ok.mpr ⟨valid, version, _, encoded, rfl⟩, ?_, ?_,
    (sections.integrityBytes known length).2, (sections.projectionBytes known length).2⟩
  · rw [append_assoc, take_left' (length_headerBytes header)]
    exact (@FieldRecord.of_read _ _ FileHeader.layout _ long front).1
  · rw [slice, append_assoc, drop_left' (length_headerBytes header), take_left' spelled]

variable (crc32) in
/-- Page 0 at the versions with an extension: what can be made is read back as it was written, and what is
    read is written again with its bytes, an empty base layout apart. -/
theorem headerPage_roundTrip :
    (∀ header extension page, Constructed crc32 extension → FileHeader.layout.Fits header →
      buildHeaderPageWithExtension header extension = .ok page →
        FileHeader.fromBytes page = .ok header ∧
          HeaderExtension.readFromPage0 crc32 header.version page = .ok (some extension)) ∧
    ∀ header extension page, FileHeader.fromBytes page = .ok header → header.validate = .ok () →
      HeaderExtension.readFromPage0 crc32 header.version page = .ok (some extension) →
        ∃ kind page', extensionKind header.version = .ok kind ∧
          buildHeaderPageWithExtension header extension = .ok page' ∧
          page'.take headerExtensionOffset = page.take headerExtensionOffset ∧
          slice page' headerExtensionOffset kind.2 =
            spelledOut crc32 (slice page headerExtensionOffset kind.2) ∧
          (header.version < 11 → extension.baseIntegrity = .empty) ∧
          (header.version < 13 →
            extension.projectionPrimary = .empty ∧ extension.projectionSecondary = .empty) :=
  ⟨fun _ _ _ => buildHeaderPage_readsBack, fun _ _ _ => readFromPage0_writesBack⟩

def smallHeader : FileHeader := ⟨magicNumber, 10, 3, 1, 1, 2, 2, 2, 2, 0, 2, 0, 1, 0⟩

def anyChecksum : Bytes → UInt32 := fun _ => 5

def smallSlot : HeaderManifestSlot := ⟨7, 100, 1, 30, 9, 5⟩

theorem headerPage_roundTrip_small : ∃ page,
    buildHeaderPageWithExtension smallHeader (.new anyChecksum smallSlot .empty) = .ok page ∧
      (FileHeader.fromBytes page = .ok smallHeader ∧
        HeaderExtension.readFromPage0 anyChecksum 10 page = .ok (some (.new anyChecksum smallSlot .empty))) ∧
      ∃ kind page', extensionKind 10 = .ok kind ∧
        buildHeaderPageWithExtension smallHeader (.new anyChecksum smallSlot .empty) = .ok page' ∧
        slice page' headerExtensionOffset kind.2 =
          spelledOut anyChecksum (slice page headerExtensionOffset kind.2) := by
  have made : Constructed anyChecksum (.new anyChecksum smallSlot .empty) := by
    refine .new ?_ ?_
    · change FieldsFit [8, 8, 8, 8, 4, 4] [7, 100, 1, 30, 9, 5]
      simp
    · change FieldsFit [8, 8, 8, 8, 4, 4] [0, 0, 0, 0, 0, 0]
      simp
  have fits : FileHeader.layout.Fits smallHeader := by
    change FieldsFit [4, 4, 8, 8, 8, 8, 8, 8, 8, 4, 1, 3, 8, 4] [magicNumber, 10, 3, 1, 1, 2, 2, 2, 2, 0, 2, 0, 1, 0]
    simp [magicNumber, ofLeBytes]
  obtain ⟨writes, reads⟩ := headerPage_roundTrip anyChecksum
  refine ⟨_, rfl, writes smallHeader _ _ made fits rfl, ?_⟩
  obtain ⟨header, extension⟩ := writes smallHeader _ _ made fits rfl
  obtain ⟨kind, page', known, built, -, spelled, -⟩ := reads smallHeader _ _ header rfl extension
  exact ⟨kind, page', known, built, spelled⟩

def emptyLayoutPage : Bytes :=
  smallHeader.toBytes ++ ([77, 71, 72, 69, 88, 48, 48, 49] ++ (leBytes 4 10 ++ (smallSlot.toBytes ++
    (HeaderManifestSlot.empty.toBytes ++ List.replicate 12 0))))

/-- An empty base layout is read as page 1, and written as such. -/
theorem emptyLayout_spelledOut :
    FileHeader.fromBytes emptyLayoutPage = .ok smallHeader ∧ smallHeader.validate = .ok () ∧
      HeaderExtension.readFromPage0 anyChecksum 10 emptyLayoutPage =
        .ok (some (.new anyChecksum smallSlot .empty)) ∧
      ∃ page, buildHeaderPageWithExtension smallHeader (.new anyChecksum smallSlot .empty) = .ok page ∧
        slice page 176 12 = [1, 0, 0, 0, 0, 0, 0, 0, 5, 0, 0, 0] ∧
        slice emptyLayoutPage 176 12 = List.replicate 12 0 :=
  ⟨by decide +kernel, by decide +kernel, by decide +kernel, _, rfl, by decide +kernel, by decide +kernel⟩

end Page

end HeaderPage

end ViciaDb
