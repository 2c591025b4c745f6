/-
The raw capture ring over its runs, and the archive that is taken from it.

The archive of a ring is a function of the captures that the ring holds, and it
is valid unless its hash happens to be zero, which the check takes for the hash
of nothing.  Over a run the captures that are held are the last ones of those
that were accepted (`Reached`); the others were evicted, dropped or empty, and
are counted.
-/
import RunD.RawCaptureSteps

namespace RunD.RawCapture

variable {H : ByteHasher}

/-! ### The archive of what is held -/

/-- The records of an archive, whose bytes stand one behind the other from `offset` on. -/
def archivedRecords (H : ByteHasher) : Nat → List Captured → List DiagnosticRecord
  | _, [] => []
  | offset, entry :: entries =>
      { eventSequence := entry.eventSequence
        kind := entry.kind
        offset := UInt64.ofNat offset
        byteCount := UInt64.ofNat entry.content.length
        payloadHash := H.hashBytes entry.content } ::
      archivedRecords H (offset + entry.content.length) entries

theorem length_archivedRecords (offset : Nat) (entries : List Captured) :
    (archivedRecords H offset entries).length = entries.length := by
  induction entries generalizing offset with
  | nil => rfl
  | cons entry entries ih => rw [archivedRecords, List.length_cons, ih, List.length_cons]

theorem archivedRecords_append (offset : Nat) (entries more : List Captured) :
    archivedRecords H offset (entries ++ more) =
      archivedRecords H offset entries ++
        archivedRecords H (offset + (contents entries).length) more := by
  induction entries generalizing offset with
  | nil => rfl
  | cons entry entries ih =>
      rw [List.cons_append, archivedRecords, ih, contents_cons, List.length_append, Nat.add_assoc]
      rfl

/-- What `copy` reads around the ring of bytes. -/
theorem copy_spec {ring : RawCaptureRing} {offset : Nat} {content : List UInt8}
    (h : Stored ring.bytes offset content) (hoffset : offset < ring.bytes.length) :
    ring.copy offset content.length = some content := by
  unfold RawCaptureRing.copy
  by_cases hzero : content.length = 0
  · rw [if_pos hzero, List.eq_nil_of_length_eq_zero hzero]
  · rw [if_neg hzero]
    dsimp only
    have hle := h.length_le
    obtain ⟨hfront, hback⟩ := h.read hoffset rfl
    rw [extract_of_le (by omega), hfront]
    dsimp only [bind, Option.bind]
    by_cases hone : min content.length (ring.bytes.length - offset) = content.length
    · rw [if_neg (not_not_intro hone), hone, List.take_length]
      rfl
    · rw [if_pos hone, extract_of_le (by omega), List.drop_zero, hback]
      show some _ = _
      rw [List.take_append_drop]

/-- The archive, in terms of the captures that are held. -/
def archiveOf (H : ByteHasher) (ring : RawCaptureRing) (entries : List Captured) :
    DiagnosticArchive :=
  let archive : DiagnosticArchive :=
    { records := archivedRecords H 0 entries
      bytes := contents entries
      report :=
        { retainedBytes := UInt64.ofNat (contents entries).length
          retainedRecords := UInt64.ofNat entries.length
          evictedRecords := ring.evictedRecords
          droppedRecords := ring.droppedRecords } }
  { archive with hash := diagnosticHash archive }

/-- The state of the loop of `Archive` that has copied the first captures. -/
def archiving (H : ByteHasher) (taken rest : List Captured) : RawCaptureRing.Archiving where
  records := archivedRecords H 0 taken
  bytes := contents taken ++ List.replicate (contents rest).length 0
  outputOffset := (contents taken).length

/-- One turn copies the next record. -/
theorem archiveRecord_spec {ring : RawCaptureRing} {taken rest : List Captured} {entry : Captured}
    (h : Holds H ring (taken ++ entry :: rest)) :
    ring.archiveRecord (archiving H taken (entry :: rest)) taken.length =
      some (archiving H (taken ++ [entry]) rest) := by
  have hcapacity : 0 < ring.bytes.length := Nat.lt_of_le_of_lt (Nat.zero_le _) h.byteHead_lt
  have hlen := h.length_le
  rw [List.length_append, List.length_cons] at hlen
  -- the record of the entry stands in its slot, with the place of its bytes
  have hslot : wrap ring.recordHead taken.length ring.records.length =
      (ring.recordHead + taken.length) % ring.records.length :=
    wrap_eq_mod h.recordHead_lt (by omega)
  have hrecord := h.records_stored.item taken.length
    { eventSequence := entry.eventSequence
      kind := entry.kind
      byteOffset := (ring.byteHead + (contents taken).length) % ring.bytes.length
      byteCount := UInt64.ofNat entry.content.length
      payloadHash := H.hashBytes entry.content } (by
    rw [ringRecords_append h.byteHead_lt,
      List.getElem?_append_right (by rw [length_ringRecords]), length_ringRecords, Nat.sub_self]
    rfl)
  have hstored := h.bytes_stored
  rw [contents_append, contents_cons] at hstored
  have hcontents := h.contents_le
  rw [contents_append, contents_cons, List.length_append, List.length_append] at hcontents
  have hsize : (UInt64.ofNat entry.content.length).toNat = entry.content.length :=
    UInt64.toNat_ofNat_of_lt' (by
      show _ < 18446744073709551616
      have := h.bytes_lt
      omega)
  have hcopy := copy_spec hstored.right.left (Nat.mod_lt _ hcapacity)
  -- its bytes copyInto the zeros behind those of the records before
  have hwrite : copyInto (contents taken ++ List.replicate (contents (entry :: rest)).length 0)
      (contents taken).length entry.content = some
        (contents taken ++ entry.content ++ List.replicate (contents rest).length 0) := by
    rw [contents_cons, List.length_append, copyInto_of_le (by
        rw [List.length_append, List.length_replicate]
        omega), List.take_left, List.drop_append, List.drop_of_length_le (Nat.le_add_right _ _),
      List.nil_append, List.drop_replicate]
    congr 3
    omega
  have hcontents' : contents (taken ++ [entry]) = contents taken ++ entry.content := by
    rw [contents_append, contents_cons, contents_nil, List.append_nil]
  rw [RawCaptureRing.archiveRecord, hslot, hrecord]
  dsimp only [bind, Option.bind, archiving]
  rw [hsize, hcopy]
  dsimp only
  rw [hwrite, archivedRecords_append, hcontents', List.length_append, Nat.zero_add]
  rfl

/-- **The archive of a ring is the one of the captures that it holds.** -/
theorem archive_spec {ring : RawCaptureRing} {entries : List Captured}
    (h : Holds H ring entries) : ring.archive = some (archiveOf H ring entries) := by
  have hloop : ∀ count, count ≤ entries.length →
      (List.range count).foldlM ring.archiveRecord { bytes := List.replicate ring.byteSize 0 } =
        some (archiving H (entries.take count) (entries.drop count)) := by
    intro count hcount
    induction count with
    | zero =>
        rw [h.byteSize_eq]
        rfl
    | succ count ih =>
        have hlt : count < entries.length := by omega
        have hentries : entries.take count ++ entries[count] :: entries.drop (count + 1) =
            entries := by
          rw [← List.drop_eq_getElem_cons hlt, List.take_append_drop]
        have hnext := archiveRecord_spec (hentries.symm ▸ h)
        rw [List.length_take, Nat.min_eq_left (by omega)] at hnext
        rw [List.range_succ, List.foldlM_append, ih (by omega), List.drop_eq_getElem_cons hlt]
        show (List.foldlM ring.archiveRecord _ [count] : Option _) = _
        rw [List.foldlM_cons, hnext, List.take_succ_eq_append_getElem hlt]
        rfl
  have hfinal := hloop entries.length (Nat.le_refl _)
  rw [List.take_length, List.drop_length] at hfinal
  unfold RawCaptureRing.archive
  dsimp only
  by_cases hnone : ring.recordCount = 0
  · have hempty : entries = [] := List.eq_nil_of_length_eq_zero (h.recordCount_eq.symm.trans hnone)
    subst hempty
    rw [if_pos hnone, h.byteSize_eq, h.recordCount_eq]
    rfl
  · rw [if_neg hnone, h.recordCount_eq, hfinal, h.byteSize_eq]
    dsimp only [bind, Option.bind, archiving]
    rw [contents_nil, List.length_nil, List.replicate_zero, List.append_nil]
    rfl

/-- The captures that an archive tells of. -/
def archivedCaptures (archive : DiagnosticArchive) : List Captured :=
  archive.records.map fun record =>
    { eventSequence := record.eventSequence
      kind := record.kind
      content := (archive.bytes.drop record.offset.toNat).take record.byteCount.toNat }

theorem captures_archivedRecords (before : List UInt8) (entries : List Captured)
    (hlt : (before ++ contents entries).length < 2 ^ 64) :
    ((archivedRecords H before.length entries).map fun record =>
      ({ eventSequence := record.eventSequence
         kind := record.kind
         content := ((before ++ contents entries).drop record.offset.toNat).take
          record.byteCount.toNat } : Captured)) = entries := by
  induction entries generalizing before with
  | nil => rfl
  | cons entry entries ih =>
      rw [contents_cons] at hlt ⊢
      have hshort := hlt
      rw [List.length_append, List.length_append] at hshort
      have hoffset : (UInt64.ofNat before.length).toNat = before.length :=
        UInt64.toNat_ofNat_of_lt' (by show _ < 18446744073709551616; omega)
      have hsize : (UInt64.ofNat entry.content.length).toNat = entry.content.length :=
        UInt64.toNat_ofNat_of_lt' (by show _ < 18446744073709551616; omega)
      rw [← List.append_assoc] at hlt
      have hrest := ih (before ++ entry.content) hlt
      rw [List.length_append, List.append_assoc] at hrest
      rw [archivedRecords, List.map_cons, hrest, hoffset, hsize, List.drop_left, List.take_left]

theorem archivedCaptures_archiveOf {ring : RawCaptureRing} {entries : List Captured}
    (h : Holds H ring entries) : archivedCaptures (archiveOf H ring entries) = entries :=
  captures_archivedRecords (H := H) [] entries (Nat.lt_of_le_of_lt h.contents_le h.bytes_lt)

/-! ### Validity -/

/-- `ValidDiagnosticArchive`. -/
def validDiagnosticArchive (H : ByteHasher) (archive : DiagnosticArchive) : Bool :=
  (checkDiagnosticArchive H archive).isOk

/-- What the ring takes in: a capture from the network, numbered and with bytes. -/
structure Captured.Ingress (entry : Captured) : Prop where
  kind_eq : ingressKind entry.kind = true
  sequence_ne : entry.eventSequence ≠ 0
  content_ne : entry.content ≠ []

/-- The sequences of captures go up, from behind a first one on. -/
def Ascending (sequence : UInt64) : List Captured → Prop
  | [] => True
  | entry :: entries => sequence < entry.eventSequence ∧ Ascending entry.eventSequence entries

theorem ascending_of_pairwise {entries : List Captured} {sequence : UInt64}
    (hfirst : ∀ entry ∈ entries, sequence < entry.eventSequence)
    (h : entries.Pairwise fun a b => a.eventSequence < b.eventSequence) :
    Ascending sequence entries := by
  induction entries generalizing sequence with
  | nil => trivial
  | cons entry entries ih =>
      obtain ⟨hentry, hrest⟩ := List.pairwise_cons.mp h
      exact ⟨hfirst entry (by simp), ih hentry hrest⟩

/-- **The check accepts every record that was archived.** -/
theorem checkRecords_spec (before : List UInt8) (sequence : UInt64) {entries : List Captured}
    (hlt : (before ++ contents entries).length < 2 ^ 64)
    (hingress : ∀ entry ∈ entries, entry.Ingress) (hascending : Ascending sequence entries) :
    ∃ last, forEach (archivedRecords H before.length entries)
        (checkDiagnosticRecord H (before ++ contents entries))
        (UInt64.ofNat before.length, sequence) =
      Except.ok (UInt64.ofNat (before ++ contents entries).length, last) := by
  induction entries generalizing before sequence with
  | nil =>
      refine ⟨sequence, ?_⟩
      rw [contents_nil, List.append_nil]
      rfl
  | cons entry entries ih =>
      obtain ⟨hsequence, hrest⟩ := hascending
      have hentry := hingress entry (by simp)
      rw [contents_cons] at hlt ⊢
      have hshort := hlt
      rw [List.length_append, List.length_append] at hshort
      have hoffset : (UInt64.ofNat before.length).toNat = before.length :=
        UInt64.toNat_ofNat_of_lt' (by show _ < 18446744073709551616; omega)
      have hsize : (UInt64.ofNat entry.content.length).toNat = entry.content.length :=
        UInt64.toNat_ofNat_of_lt' (by show _ < 18446744073709551616; omega)
      have hpos : 0 < entry.content.length := List.length_pos_of_ne_nil hentry.content_ne
      have hne : UInt64.ofNat entry.content.length ≠ 0 := fun hzero => by
        rw [hzero] at hsize
        have hnone : (0 : UInt64).toNat = 0 := rfl
        omega
      have hadd : UInt64.ofNat before.length + UInt64.ofNat entry.content.length =
          UInt64.ofNat (before ++ entry.content).length := by
        rw [List.length_append, UInt64.ofNat_add]
      have hend : (UInt64.ofNat (before ++ entry.content).length).toNat =
          before.length + entry.content.length := by
        rw [← List.length_append]
        exact UInt64.toNat_ofNat_of_lt' (by
          show _ < 18446744073709551616
          rw [List.length_append]
          omega)
      rw [← List.append_assoc] at hlt ⊢
      obtain ⟨last, hlast⟩ := ih (before ++ entry.content) entry.eventSequence hlt
        (fun e he => hingress e (List.mem_cons_of_mem _ he)) hrest
      refine ⟨last, ?_⟩
      rw [← hlast, archivedRecords, forEach]
      have hcheck : checkDiagnosticRecord H (before ++ entry.content ++ contents entries)
          { eventSequence := entry.eventSequence
            kind := entry.kind
            offset := UInt64.ofNat before.length
            byteCount := UInt64.ofNat entry.content.length
            payloadHash := H.hashBytes entry.content }
          (UInt64.ofNat before.length, sequence) =
          Except.ok (UInt64.ofNat (before ++ entry.content).length, entry.eventSequence) := by
        unfold checkDiagnosticRecord
        dsimp only
        rw [require_of_holds ⟨hentry.kind_eq, hentry.sequence_ne, UInt64.not_le.mpr hsequence,
          hne, rfl, checkedAdd_iff.mpr (by omega)⟩, ok_bind, hadd, require_of_holds (by
            rw [hend, List.length_append, List.length_append]
            omega), ok_bind, hoffset, hsize, List.append_assoc, List.drop_left, List.take_left,
          require_of_holds rfl]
        rfl
      rw [hcheck, ok_bind, List.length_append]

/-- **The archive is valid**, unless it has records and its hash is zero. -/
theorem valid_archiveOf {ring : RawCaptureRing} {entries : List Captured}
    (h : Holds H ring entries) (hingress : ∀ entry ∈ entries, entry.Ingress)
    (hordered : entries.Pairwise fun a b => a.eventSequence < b.eventSequence)
    (hhash : (archiveOf H ring entries).records = [] ∨ (archiveOf H ring entries).hash ≠ 0) :
    validDiagnosticArchive H (archiveOf H ring entries) = true := by
  have hcontents : (contents entries).length < 2 ^ 64 :=
    Nat.lt_of_le_of_lt h.contents_le h.bytes_lt
  have hlength : entries.length < 2 ^ 64 := Nat.lt_of_le_of_lt h.length_le h.records_lt
  have hwhole : diagnosticHash (archiveOf H ring entries) = (archiveOf H ring entries).hash := rfl
  unfold validDiagnosticArchive checkDiagnosticArchive
  by_cases hempty : entries = []
  · subst hempty
    have hnone : (archiveOf H ring []).records = [] := rfl
    rw [if_pos hnone, require_of_holds ⟨rfl, rfl, rfl, hwhole.symm⟩]
    rfl
  · have hrecords : (archiveOf H ring entries).records ≠ [] := by
      intro hnil
      have hlen := length_archivedRecords (H := H) 0 entries
      rw [show archivedRecords H 0 entries = [] from hnil] at hlen
      exact hempty (List.eq_nil_of_length_eq_zero hlen.symm)
    have hsome : contents entries ≠ [] := by
      cases entries with
      | nil => exact absurd rfl hempty
      | cons entry entries =>
          intro hnil
          rw [contents_cons] at hnil
          exact (hingress entry (by simp)).content_ne (List.append_eq_nil_iff.mp hnil).1
    obtain ⟨last, hlast⟩ := checkRecords_spec (H := H) [] 0 hcontents hingress
      (ascending_of_pairwise (fun entry hentry =>
        UInt64.pos_iff_ne_zero.mpr (hingress entry hentry).sequence_ne) hordered)
    have hbytes : (UInt64.ofNat (contents entries).length).toNat = (contents entries).length :=
      UInt64.toNat_ofNat_of_lt' hcontents
    have hcount : (UInt64.ofNat entries.length).toNat = entries.length :=
      UInt64.toNat_ofNat_of_lt' hlength
    rw [if_neg hrecords, require_of_holds ⟨hcount.trans (length_archivedRecords 0 entries).symm,
      hbytes, hsome, hhash.resolve_left hrecords⟩, ok_bind]
    have hloop : forEach (archiveOf H ring entries).records
        (checkDiagnosticRecord H (archiveOf H ring entries).bytes) (0, 0) =
        Except.ok (UInt64.ofNat (contents entries).length, last) := hlast
    rw [hloop, ok_bind, require_of_holds ⟨hbytes, hwhole⟩]
    rfl

/-! ### One capture -/

/-- A capture with bytes. -/
def nonEmpty (call : CaptureCall) : Bool := call.source.byteCount != 0

/-- The captures with bytes that a ring with these windows takes. -/
def accepted (config : Diagnostic) (call : CaptureCall) : Bool :=
  decide (config.windowBytes ≠ 0 ∧ config.windowRecords ≠ 0) && nonEmpty call &&
    decide (ingressKind call.kind = true ∧ call.eventSequence ≠ 0 ∧
      call.source.callable = true ∧ call.source.slices ≠ [] ∧
      call.source.byteCount ≤ call.source.admittedBytes ∧
      call.source.byteCount ≤ config.windowBytes)

/-- A call with the bytes that it hands over. -/
def CaptureCall.captured (call : CaptureCall) : Captured :=
  ⟨call.eventSequence, call.kind, call.source.content⟩

theorem accepted_iff {config : Diagnostic} {call : CaptureCall}
    (hbytes : config.windowBytes ≠ 0) (hrecords : config.windowRecords ≠ 0) :
    accepted config call = true ↔ nonEmpty call = true ∧ ingressKind call.kind = true ∧
      call.eventSequence ≠ 0 ∧ call.source.callable = true ∧ call.source.slices ≠ [] ∧
      call.source.byteCount ≤ call.source.admittedBytes ∧
      call.source.byteCount ≤ config.windowBytes := by
  rw [accepted, Bool.and_eq_true, Bool.and_eq_true, decide_eq_true_iff, decide_eq_true_iff]
  constructor
  · rintro ⟨⟨-, hnonEmpty⟩, hrest⟩
    exact ⟨hnonEmpty, hrest⟩
  · rintro ⟨hnonEmpty, hrest⟩
    exact ⟨⟨⟨hbytes, hrecords⟩, hnonEmpty⟩, hrest⟩

theorem nonEmpty_of_accepted {config : Diagnostic} {call : CaptureCall}
    (h : accepted config call = true) : nonEmpty call = true := by
  rw [accepted, Bool.and_eq_true, Bool.and_eq_true] at h
  exact h.1.2

theorem ingress_of_accepted {config : Diagnostic} {call : CaptureCall}
    (h : accepted config call = true) (hwell : call.source.WellFormed) :
    call.captured.Ingress := by
  have hnonEmpty := nonEmpty_of_accepted h
  rw [accepted, Bool.and_eq_true, decide_eq_true_iff] at h
  obtain ⟨-, hkind, hsequence, -⟩ := h
  refine ⟨hkind, hsequence, fun hnil => ?_⟩
  have hlen := hwell.length_content
  rw [show call.source.content = [] from hnil] at hlen
  rw [nonEmpty, bne_iff_ne] at hnonEmpty
  exact hnonEmpty (UInt64.toNat_inj.mp hlen.symm)

/-- The ring has the windows it was made with and holds these captures. -/
structure Windowed (H : ByteHasher) (config : Diagnostic) (ring : RawCaptureRing)
    (entries : List Captured) : Prop where
  holds : Holds H ring entries
  bytes_length : ring.bytes.length = config.windowBytes.toNat
  records_length : ring.records.length = config.windowRecords.toNat

theorem Windowed.windows_ne {config : Diagnostic} {ring : RawCaptureRing}
    {entries : List Captured} (h : Windowed H config ring entries) :
    config.windowBytes ≠ 0 ∧ config.windowRecords ≠ 0 := by
  constructor
  · intro hzero
    have := h.holds.byteHead_lt
    rw [h.bytes_length, hzero] at this
    exact Nat.not_lt_zero _ this
  · intro hzero
    have := h.holds.recordHead_lt
    rw [h.records_length, hzero] at this
    exact Nat.not_lt_zero _ this

theorem Windowed.refuses_iff {config : Diagnostic} {ring : RawCaptureRing}
    {entries : List Captured} (h : Windowed H config ring entries) {call : CaptureCall}
    (hnonEmpty : nonEmpty call = true) :
    ring.Refuses call.eventSequence call.kind call.source ↔ ¬ accepted config call = true := by
  obtain ⟨hbytes, hrecords⟩ := h.windows_ne
  rw [accepted_iff hbytes hrecords, RawCaptureRing.Refuses, h.bytes_length]
  constructor
  · rintro hrefuse ⟨-, hkind, hsequence, hcallable, hslices, hadmitted, hwindow⟩
    rcases hrefuse with hk | hs | hc | hsl | ha | hw
    · rw [hkind] at hk
      cases hk
    · exact hsequence hs
    · rw [hcallable] at hc
      cases hc
    · exact hslices hsl
    · exact absurd hadmitted (UInt64.not_le.mpr ha)
    · rw [UInt64.le_iff_toNat_le] at hwindow
      omega
  · intro hnot
    by_contra hrefuse
    push Not at hrefuse
    obtain ⟨hkind, hsequence, hcallable, hslices, hadmitted, hwindow⟩ := hrefuse
    rw [ne_eq, Bool.not_eq_false] at hkind hcallable
    exact hnot ⟨hnonEmpty, hkind, hsequence, hcallable, hslices, UInt64.not_lt.mp hadmitted,
      UInt64.le_iff_toNat_le.mpr hwindow⟩

/-- A capture with bytes is accepted or it is dropped. -/
theorem countP_nonEmpty (config : Diagnostic) (calls : List CaptureCall) :
    calls.countP nonEmpty = calls.countP (accepted config) +
      calls.countP fun call => nonEmpty call && !accepted config call := by
  induction calls with
  | nil => rfl
  | cons call calls ih =>
      rw [List.countP_cons, List.countP_cons, List.countP_cons, ih]
      by_cases hacc : accepted config call = true
      · rw [if_pos hacc, if_pos (nonEmpty_of_accepted hacc), hacc, Bool.not_true, Bool.and_false,
          if_neg Bool.false_ne_true]
        omega
      · rw [Bool.not_eq_true] at hacc
        rw [hacc, Bool.not_false, Bool.and_true, if_neg Bool.false_ne_true]
        omega

/-- What one call adds to the captures that are held. -/
def added (config : Diagnostic) (call : CaptureCall) : List Captured :=
  if accepted config call = true then [call.captured] else []

/-- **One call.**  An accepted capture is put behind those that stay, after as few evictions as it
needs; every other one leaves the captures as they are. -/
theorem capture_spec (nullByteHash : UInt64 → UInt64) {config : Diagnostic} {ring : RawCaptureRing}
    {entries : List Captured} {call : CaptureCall} (h : Windowed H config ring entries)
    (hwell : call.source.WellFormed) :
    ∃ ring' evicted,
      ring.capture H nullByteHash call.eventSequence call.kind call.source =
        some (hashIngress H nullByteHash call.source, ring') ∧
      Windowed H config ring' (entries.drop evicted ++ added config call) ∧
      evicted ≤ entries.length ∧
      (∀ fewer, fewer < evicted → accepted config call = true ∧
        NoRoom config.windowBytes.toNat config.windowRecords.toNat (entries.drop fewer)
          call.source.byteCount) ∧
      ring'.evictedRecords.toNat = min (ring.evictedRecords.toNat + evicted) (2 ^ 64 - 1) ∧
      ring'.droppedRecords.toNat = min (ring.droppedRecords.toNat +
        (if nonEmpty call = true ∧ ¬ accepted config call = true then 1 else 0)) (2 ^ 64 - 1) := by
  obtain ⟨hbytes, hrecords⟩ := h.windows_ne
  have hevicted := ring.evictedRecords.toNat_lt
  have hdropped := ring.droppedRecords.toNat_lt
  have hon : ¬ ring.enabled = false := by
    rw [h.holds.enabled]
    exact Bool.noConfusion
  rw [RawCaptureRing.capture, if_neg hon, added]
  by_cases hzero : call.source.byteCount = 0
  · -- an empty capture does nothing
    have hempty : ¬ nonEmpty call = true := by
      rw [nonEmpty, bne_iff_ne]
      exact not_not_intro hzero
    have hnot : ¬ accepted config call = true := fun hacc => hempty (nonEmpty_of_accepted hacc)
    have hhash : hashIngress H nullByteHash call.source = H.hashBytes [] := by
      rw [hashIngress, if_pos hzero]
    refine ⟨ring, 0, by rw [if_pos hzero, hhash], ?_, Nat.zero_le _, ?_, by omega, ?_⟩
    · rw [if_neg hnot, List.drop_zero, List.append_nil]
      exact h
    · intro fewer hfewer
      exact absurd hfewer (Nat.not_lt_zero _)
    · rw [if_neg (fun hboth => hempty hboth.1)]
      omega
  · have hnonEmpty : nonEmpty call = true := bne_iff_ne.mpr hzero
    rw [if_neg hzero]
    by_cases hacc : accepted config call = true
    · -- a capture that is taken is retained
      have hkeep : ¬ ring.Refuses call.eventSequence call.kind call.source :=
        fun hrefuse => (h.refuses_iff hnonEmpty).mp hrefuse hacc
      obtain ⟨-, -, -, hcallable, hslices, hadmitted, hwindow⟩ :=
        (accepted_iff hbytes hrecords).mp hacc
      rw [UInt64.le_iff_toNat_le, ← h.bytes_length] at hwindow
      obtain ⟨ring', evicted, hretain, hholds, hle, hfewer, hb, hr, hd, he⟩ :=
        retain_spec nullByteHash h.holds hwell hwindow call.eventSequence call.kind
      rw [h.bytes_length, h.records_length] at hfewer
      refine ⟨ring', evicted, ?_, ?_, hle, fun fewer hlt => ⟨hacc, hfewer fewer hlt⟩, he, ?_⟩
      · rw [if_neg hkeep, hretain, hashIngress_eq hwell hcallable hslices hadmitted]
      · rw [if_pos hacc]
        exact ⟨hholds, hb.trans h.bytes_length, hr.trans h.records_length⟩
      · rw [if_neg (fun hboth => hboth.2 hacc), hd]
        omega
    · -- a capture that is dropped is only counted
      refine ⟨{ ring with droppedRecords := counterSaturatingAdd ring.droppedRecords 1 }, 0,
        by rw [if_pos ((h.refuses_iff hnonEmpty).mpr hacc)], ?_, Nat.zero_le _, ?_,
        by simp only; omega, ?_⟩
      · rw [if_neg hacc, List.drop_zero, List.append_nil]
        exact ⟨h.holds.counters _ _, h.bytes_length, h.records_length⟩
      · intro fewer hfewer
        exact absurd hfewer (Nat.not_lt_zero _)
      · rw [if_pos ⟨hnonEmpty, hacc⟩, toNat_counterSaturatingAdd, UInt64.toNat_one]

/-! ### Runs -/

/-- What calls in a row have made of the ring: it holds the last ones of the accepted captures, and
has counted those that it evicted and those that it dropped. -/
structure Reached (H : ByteHasher) (config : Diagnostic) (calls : List CaptureCall)
    (ring : RawCaptureRing) (entries : List Captured) : Prop where
  windowed : Windowed H config ring entries
  suffix : entries <:+ (calls.filter (accepted config)).map CaptureCall.captured
  evicted_eq : ring.evictedRecords.toNat =
    min (calls.countP (accepted config) - entries.length) (2 ^ 64 - 1)
  dropped_eq : ring.droppedRecords.toNat =
    min (calls.countP fun call => nonEmpty call && !accepted config call) (2 ^ 64 - 1)

theorem reached_make {config : Diagnostic} (hbytes : config.windowBytes ≠ 0)
    (hrecords : config.windowRecords ≠ 0) :
    Reached H config [] (RawCaptureRing.make config) [] := by
  have hmake : RawCaptureRing.make config =
      { bytes := List.replicate config.windowBytes.toNat 0
        records := List.replicate config.windowRecords.toNat {} } := by
    rw [RawCaptureRing.make, if_neg (by rintro (h | h); exacts [hbytes h, hrecords h])]
  refine ⟨⟨make_holds hbytes hrecords, ?_, ?_⟩, List.nil_suffix, ?_, ?_⟩
  · rw [hmake]
    exact List.length_replicate
  · rw [hmake]
    exact List.length_replicate
  · rw [hmake]
    rfl
  · rw [hmake]
    rfl

theorem Reached.length_le {config : Diagnostic} {calls : List CaptureCall} {ring : RawCaptureRing}
    {entries : List Captured} (h : Reached H config calls ring entries) :
    entries.length ≤ calls.countP (accepted config) := by
  have hle := h.suffix.length_le
  rwa [List.length_map, ← List.countP_eq_length_filter] at hle

/-- The step of a run. -/
theorem Reached.capture {config : Diagnostic} {calls : List CaptureCall} {ring : RawCaptureRing}
    {entries : List Captured} (h : Reached H config calls ring entries)
    (nullByteHash : UInt64 → UInt64) {call : CaptureCall} (hwell : call.source.WellFormed) :
    ∃ ring' entries',
      ring.capture H nullByteHash call.eventSequence call.kind call.source =
        some (hashIngress H nullByteHash call.source, ring') ∧
      Reached H config (calls ++ [call]) ring' entries' := by
  obtain ⟨ring', evicted, hcapture, hwindowed, hle, -, hevicted, hdropped⟩ :=
    capture_spec nullByteHash h.windowed hwell
  have hheld := h.length_le
  refine ⟨ring', _, hcapture, hwindowed, ?_, ?_, ?_⟩
  · obtain ⟨gone, hgone⟩ := (List.drop_suffix evicted entries).trans h.suffix
    refine ⟨gone, ?_⟩
    rw [← List.append_assoc, hgone, List.filter_append, List.map_append, added]
    by_cases hacc : accepted config call = true
    · rw [if_pos hacc, List.filter_cons, if_pos hacc]
      rfl
    · rw [if_neg hacc, List.filter_cons, if_neg hacc]
      rfl
  · rw [hevicted, h.evicted_eq, List.countP_append, List.countP_singleton, List.length_append,
      List.length_drop, added]
    by_cases hacc : accepted config call = true
    · rw [if_pos hacc, if_pos hacc, List.length_singleton]
      omega
    · rw [if_neg hacc, if_neg hacc, List.length_nil]
      omega
  · rw [hdropped, h.dropped_eq, List.countP_append, List.countP_singleton]
    by_cases hacc : nonEmpty call = true ∧ ¬ accepted config call = true
    · rw [if_pos hacc, if_pos (by rw [hacc.1, Bool.not_eq_true _ |>.mp hacc.2]; rfl)]
      omega
    · rw [if_neg hacc, if_neg (by
        intro hboth
        rw [Bool.and_eq_true, Bool.not_eq_true'] at hboth
        exact hacc ⟨hboth.1, by rw [hboth.2]; exact Bool.noConfusion⟩)]
      omega

/-- **A run**: every call returns the hash of its source. -/
theorem Reached.captureAll {config : Diagnostic} {done calls : List CaptureCall}
    {ring : RawCaptureRing} {entries : List Captured} (h : Reached H config done ring entries)
    (nullByteHash : UInt64 → UInt64) (hwell : ∀ call ∈ calls, call.source.WellFormed) :
    ∃ ring' entries',
      RawCapture.captureAll H nullByteHash calls ring =
        some (calls.map fun call => hashIngress H nullByteHash call.source, ring') ∧
      Reached H config (done ++ calls) ring' entries' := by
  induction calls generalizing done ring entries with
  | nil =>
      refine ⟨ring, entries, rfl, ?_⟩
      rw [List.append_nil]
      exact h
  | cons call calls ih =>
      obtain ⟨ring₁, entries₁, hcapture, h₁⟩ := h.capture nullByteHash
        (hwell call (by simp))
      obtain ⟨ring₂, entries₂, hrest, h₂⟩ := ih h₁ (fun c hc => hwell c (List.mem_cons_of_mem _ hc))
      rw [List.append_assoc] at h₂
      refine ⟨ring₂, entries₂, ?_, h₂⟩
      rw [RawCapture.captureAll, hcapture]
      dsimp only [bind, Option.bind]
      rw [hrest]
      rfl

/-- The captures that are held after a run were accepted, one after the other. -/
theorem Reached.entries_spec {config : Diagnostic} {calls : List CaptureCall}
    {ring : RawCaptureRing} {entries : List Captured} (h : Reached H config calls ring entries)
    (hordered : calls.Pairwise fun a b => a.eventSequence < b.eventSequence)
    (hwell : ∀ call ∈ calls, call.source.WellFormed) :
    (∀ entry ∈ entries, entry.Ingress) ∧
      entries.Pairwise fun a b => a.eventSequence < b.eventSequence := by
  constructor
  · intro entry hentry
    obtain ⟨call, hcall, rfl⟩ := List.mem_map.mp (h.suffix.subset hentry)
    obtain ⟨hmem, hacc⟩ := List.mem_filter.mp hcall
    exact ingress_of_accepted hacc (hwell call hmem)
  · have hkept := hordered.sublist (List.filter_sublist (p := accepted config))
    have hmap : ((calls.filter (accepted config)).map CaptureCall.captured).Pairwise
        fun a b => a.eventSequence < b.eventSequence := by
      apply List.pairwise_map.mpr
      exact hkept
    exact hmap.sublist h.suffix.sublist

/-- The bytes that a ring without windows has: none, and it never changes. -/
theorem captureAll_disabled (nullByteHash : UInt64 → UInt64) (calls : List CaptureCall) :
    captureAll H nullByteHash calls {} =
      some (calls.map fun call => hashIngress H nullByteHash call.source, {}) := by
  induction calls with
  | nil => rfl
  | cons call calls ih =>
      have hcapture : RawCaptureRing.capture H nullByteHash {} call.eventSequence call.kind
          call.source = some (hashIngress H nullByteHash call.source, {}) := rfl
      rw [captureAll, hcapture]
      dsimp only [bind, Option.bind]
      rw [ih]
      rfl

theorem accepted_disabled {config : Diagnostic}
    (h : config.windowBytes = 0 ∨ config.windowRecords = 0) (call : CaptureCall) :
    accepted config call = false := by
  rw [accepted, decide_eq_false (by rintro ⟨hb, hr⟩; exact h.elim hb hr), Bool.false_and,
    Bool.false_and]

/-- **Runs of the raw capture ring.**  Every call returns the hash of its source.  The archive after
a run is valid unless it has records and its hash is zero; it tells of the last accepted captures,
with their bytes, within the windows.  With windows, and fewer than `2 ^ 64` calls, the captures
with bytes are those that are retained, evicted or dropped.  The next call evicts only what leaves
no room for it. -/
theorem rawCaptureRing_run (H : ByteHasher) (nullByteHash : UInt64 → UInt64) (config : Diagnostic)
    (calls : List CaptureCall)
    (hordered : calls.Pairwise fun a b => a.eventSequence < b.eventSequence)
    (hwell : ∀ call ∈ calls, call.source.WellFormed) :
    ∃ ring archive,
      captureAll H nullByteHash calls (RawCaptureRing.make config) =
        some (calls.map fun call => hashIngress H nullByteHash call.source, ring) ∧
      ring.archive = some archive ∧
      (archive.records = [] ∨ archive.hash ≠ 0 → validDiagnosticArchive H archive = true) ∧
      archivedCaptures archive <:+ (calls.filter (accepted config)).map CaptureCall.captured ∧
      archive.bytes.length ≤ config.windowBytes.toNat ∧
      archive.records.length ≤ config.windowRecords.toNat ∧
      (config.windowBytes ≠ 0 → config.windowRecords ≠ 0 → calls.length < 2 ^ 64 →
        archive.records.length + archive.report.evictedRecords.toNat +
          archive.report.droppedRecords.toNat = calls.countP nonEmpty) ∧
      ∀ call : CaptureCall, call.source.WellFormed →
        ∃ hash ring' archive' evicted,
          ring.capture H nullByteHash call.eventSequence call.kind call.source =
            some (hash, ring') ∧
          ring'.archive = some archive' ∧
          archivedCaptures archive' =
            (archivedCaptures archive).drop evicted ++ added config call ∧
          ∀ fewer, fewer < evicted → accepted config call = true ∧
            NoRoom config.windowBytes.toNat config.windowRecords.toNat
              ((archivedCaptures archive).drop fewer) call.source.byteCount := by
  by_cases hwindows : config.windowBytes = 0 ∨ config.windowRecords = 0
  · -- without a window the ring only hashes
    have hmake : RawCaptureRing.make config = {} := by rw [RawCaptureRing.make, if_pos hwindows]
    rw [hmake]
    refine ⟨{}, _, captureAll_disabled nullByteHash calls, rfl, fun _ => rfl, List.nil_suffix,
      Nat.zero_le _, Nat.zero_le _, ?_, ?_⟩
    · intro hb hr
      rcases hwindows with h | h
      · exact absurd h hb
      · exact absurd h hr
    intro call hcall
    refine ⟨_, {}, _, 0, rfl, rfl, ?_, fun fewer hlt => absurd hlt (Nat.not_lt_zero _)⟩
    rw [added, accepted_disabled hwindows]
    rfl
  · push Not at hwindows
    obtain ⟨ring, entries, hrun, hreached⟩ :=
      (reached_make (H := H) hwindows.1 hwindows.2).captureAll nullByteHash hwell
    rw [List.nil_append] at hreached
    have hholds := hreached.windowed.holds
    obtain ⟨hingress, hsorted⟩ := hreached.entries_spec hordered hwell
    have hcaptures := archivedCaptures_archiveOf hholds
    refine ⟨ring, archiveOf H ring entries, hrun, archive_spec hholds,
      valid_archiveOf hholds hingress hsorted, ?_, ?_, ?_, ?_, ?_⟩
    · rw [hcaptures]
      exact hreached.suffix
    · rw [← hreached.windowed.bytes_length]
      exact hholds.contents_le
    · rw [← hreached.windowed.records_length]
      exact (length_archivedRecords 0 entries).trans_le hholds.length_le
    · intro _ _ hfew
      have hacc : calls.countP (accepted config) ≤ calls.length := List.countP_le_length
      have hdrop : (calls.countP fun call => nonEmpty call && !accepted config call) ≤
        calls.length := List.countP_le_length
      have hheld := hreached.length_le
      show (archivedRecords H 0 entries).length + ring.evictedRecords.toNat +
        ring.droppedRecords.toNat = _
      rw [length_archivedRecords, hreached.evicted_eq, hreached.dropped_eq,
        countP_nonEmpty config calls]
      omega
    · intro call hcall
      obtain ⟨ring', evicted, hcapture, hwindowed, -, hfewer, -, -⟩ :=
        capture_spec nullByteHash hreached.windowed hcall
      refine ⟨_, ring', _, evicted, hcapture, archive_spec hwindowed.holds, ?_, ?_⟩
      · rw [archivedCaptures_archiveOf hwindowed.holds, hcaptures]
      · rw [hcaptures]
        exact hfewer

section Examples

/-- One byte. -/
def oneByte : RawByteSource := { slices := [.bytes [0]], admittedBytes := 1, byteCount := 1 }

theorem oneByte_wellFormed : oneByte.WellFormed := ⟨by decide, by decide⟩

/-- A ring of one record: the second capture evicts the first one, and both are counted. -/
theorem rawCaptureRing_run_two :
    ∃ ring archive,
      captureAll (ByteHasher.ofHash ByteHasher.xxh3Short) id
        [⟨1, .netRecv, oneByte⟩, ⟨2, .netRecv, oneByte⟩] (RawCaptureRing.make ⟨2, 1⟩) =
          some ([ByteHasher.xxh3Short [0], ByteHasher.xxh3Short [0]], ring) ∧
      ring.archive = some archive ∧
      archive.records.length ≤ 1 ∧
      archive.records.length + archive.report.evictedRecords.toNat +
        archive.report.droppedRecords.toNat = 2 := by
  obtain ⟨ring, archive, hrun, harchive, -, -, -, hrecords, hcount, -⟩ :=
    rawCaptureRing_run (ByteHasher.ofHash ByteHasher.xxh3Short) id ⟨2, 1⟩
      [⟨1, .netRecv, oneByte⟩, ⟨2, .netRecv, oneByte⟩] (by decide) (by
        intro call hcall
        rw [List.mem_cons, List.mem_singleton] at hcall
        rcases hcall with rfl | rfl
        · exact oneByte_wellFormed
        · exact oneByte_wellFormed)
  exact ⟨ring, archive, hrun, harchive, hrecords, hcount (by decide) (by decide) (by decide)⟩

/-- Calls with every sequence there is, none of them from the network. -/
def everySequence : List CaptureCall :=
  (List.range (2 ^ 64)).map fun i => ⟨UInt64.ofNat i, .none, oneByte⟩

theorem everySequence_dropped {call : CaptureCall} (h : call ∈ everySequence) :
    call.source = oneByte ∧ nonEmpty call = true ∧ accepted ⟨1, 1⟩ call = false := by
  obtain ⟨i, -, rfl⟩ := List.mem_map.mp h
  refine ⟨rfl, rfl, ?_⟩
  rw [Bool.eq_false_iff]
  intro hacc
  exact Bool.noConfusion ((accepted_iff (by decide) (by decide)).mp hacc).2.1

/-- Where captures are not what is retained, evicted or dropped, and where an archive is not valid:
a ring without windows does not count, a counter stays at its maximum, and an archive whose hash
comes out as zero is taken for one without a hash. -/
theorem rawCaptureRing_exceptions :
    (∃ ring archive,
      captureAll (ByteHasher.ofHash ByteHasher.xxh3Short) id [⟨1, .netRecv, oneByte⟩]
        (RawCaptureRing.make {}) = some ([ByteHasher.xxh3Short [0]], ring) ∧
      ring.archive = some archive ∧
      archive.records.length + archive.report.evictedRecords.toNat +
        archive.report.droppedRecords.toNat ≠ [⟨1, .netRecv, oneByte⟩].countP nonEmpty) ∧
    (∃ ring archive,
      captureAll (ByteHasher.ofHash ByteHasher.xxh3Short) id everySequence
        (RawCaptureRing.make ⟨1, 1⟩) =
          some (everySequence.map fun _ => ByteHasher.xxh3Short [0], ring) ∧
      ring.archive = some archive ∧
      archive.records.length + archive.report.evictedRecords.toNat +
        archive.report.droppedRecords.toNat ≠ everySequence.countP nonEmpty) ∧
    ∃ ring archive,
      captureAll (ByteHasher.ofHash ByteHasher.xxh3Short) id
        [⟨245163142513121362, .netRecv, oneByte⟩] (RawCaptureRing.make ⟨1, 1⟩) =
          some ([ByteHasher.xxh3Short [0]], ring) ∧
      ring.archive = some archive ∧
      validDiagnosticArchive (ByteHasher.ofHash ByteHasher.xxh3Short) archive = false := by
  refine ⟨⟨{}, _, rfl, rfl, by decide⟩, ?_, ⟨_, _, rfl, rfl, by decide⟩⟩
  have hmake := reached_make (H := ByteHasher.ofHash ByteHasher.xxh3Short)
    (show (⟨1, 1⟩ : Diagnostic).windowBytes ≠ 0 by decide)
    (show (⟨1, 1⟩ : Diagnostic).windowRecords ≠ 0 by decide)
  obtain ⟨ring, entries, hrun, hreached⟩ := hmake.captureAll id
    fun call (hcall : call ∈ everySequence) =>
      (everySequence_dropped hcall).1 ▸ oneByte_wellFormed
  rw [List.nil_append] at hreached
  have hhashes : (everySequence.map fun call =>
      hashIngress (ByteHasher.ofHash ByteHasher.xxh3Short) id call.source) =
      everySequence.map fun _ => ByteHasher.xxh3Short [0] := by
    apply List.map_congr_left
    intro call hcall
    rw [(everySequence_dropped hcall).1]
    rfl
  rw [hhashes] at hrun
  refine ⟨ring, _, hrun, archive_spec hreached.windowed.holds, ?_⟩
  have hlength : everySequence.length = 2 ^ 64 := by
    rw [everySequence, List.length_map, List.length_range]
  have hall : everySequence.countP nonEmpty = everySequence.length :=
    List.countP_eq_length.mpr fun call hcall => (everySequence_dropped hcall).2.1
  have hnone : everySequence.countP (accepted ⟨1, 1⟩) = 0 :=
    List.countP_eq_zero.mpr fun call hcall => by
      rw [(everySequence_dropped hcall).2.2]
      exact Bool.false_ne_true
  have hsplit := countP_nonEmpty ⟨1, 1⟩ everySequence
  have hheld := hreached.length_le
  show (archivedRecords _ 0 entries).length + ring.evictedRecords.toNat +
    ring.droppedRecords.toNat ≠ _
  rw [length_archivedRecords, hreached.evicted_eq, hreached.dropped_eq]
  omega

end Examples

end RunD.RawCapture
