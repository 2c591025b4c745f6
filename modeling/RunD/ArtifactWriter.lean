/-
The writer of an artifact: bytes are staged in a buffer, and handed to a sink
one span after the other.

A sink answers every span with yes or no and has a bound on the bytes it
takes.  Once an operation has failed, the writer keeps its code and does
nothing more, so a failing operation leaves the whole computation early with
that code.

Two judgements speak about it.  `Puts p code a`: `p` writes `code` and returns
`a`, unless the sink does not take as much.  `Rejects p`: whatever the sink,
`p` fails.  What the buffer and the spans are does not show in them.
-/
import RunD.CheckedWord
import RunD.ReplayCode
import RunD.Varuint

namespace RunD

variable {α β : Type}

/-! ### The writer -/

/-- `Sink`: its answer to a span, after the spans it has taken. -/
structure Sink where
  maxBytes : UInt64 := ~~~0
  write : List (List UInt8) → List UInt8 → Bool

/-- `Writer`, with the spans the sink has taken. -/
structure Writer where
  sink : Sink
  buffer : List UInt8 := []
  bytes : UInt64 := 0
  writes : UInt64 := 0
  sent : List (List UInt8) := []

def kWriteSpanBytes : Nat := 4096

/-- A computation over a writer that leaves early with a code. -/
abbrev Writing := StateT Writer (Checked ReplayCode)

namespace Writing

/-- A computation that does not write. -/
def lift (x : Checked ReplayCode α) : Writing α := fun w => do
  let a ← x
  pure (a, w)

/-- `out.reject(code)`, where the caller returns at once. -/
def reject (code : ReplayCode) : Writing α := lift (leave code)

def emit (span : List UInt8) : Writing Unit := fun w =>
  if span = [] then pure ((), w)
  else do
    let nextBytes := w.bytes + UInt64.ofNat span.length
    require (checkedAdd w.bytes (UInt64.ofNat span.length) = true ∧
      ¬ nextBytes > w.sink.maxBytes ∧ checkedAdd w.writes 1 = true) .artifactCapacityExceeded
    require (w.sink.write w.sent span = true) .artifactWriteFailed
    pure ((), { w with bytes := nextBytes, writes := w.writes + 1, sent := w.sent ++ [span] })

def flush : Writing Unit := fun w =>
  if w.buffer = [] then pure ((), w)
  else do
    let ((), w) ← emit w.buffer w
    pure ((), { w with buffer := [] })

def room (bytes : Nat) : Writing Unit := fun w => do
  require (¬ bytes > kWriteSpanBytes) .artifactCapacityExceeded
  if kWriteSpanBytes - w.buffer.length ≥ bytes then pure ((), w) else flush w

/-- Bytes that go into the buffer, which has room for them. -/
def stage (bytes : List UInt8) : Writing Unit := fun w =>
  pure ((), { w with buffer := w.buffer ++ bytes })

def u8 (value : UInt8) : Writing Unit := do
  room 1
  stage [value]

/-- The loop of `varuint`. -/
def varuintLoop : Nat → UInt64 → Writing Unit
  | 0, _ => pure ()
  | turns + 1, value => do
      let byte := (value &&& 0x7f).toUInt8
      let rest := value >>> 7
      u8 (byte ||| (if rest = 0 then 0 else 0x80))
      if rest = 0 then pure () else varuintLoop turns rest

def varuint (value : UInt64) : Writing Unit := varuintLoop 10 value

def sint (value : Int64) : Writing Unit := varuint (zigzag value.toUInt64)

def fixed64 (value : UInt64) : Writing Unit := do
  room 8
  stage (encodeFixed64 value)

/-- The loop of `raw`: spans of bounded length, past the buffer. -/
def rawLoop : Nat → List UInt8 → Writing Unit
  | 0, _ => pure ()
  | turns + 1, bytes =>
      if bytes = [] then pure ()
      else do
        emit (bytes.take kWriteSpanBytes)
        rawLoop turns (bytes.drop kWriteSpanBytes)

def raw (bytes : List UInt8) : Writing Unit := do
  flush
  rawLoop bytes.length bytes

/-- What is written only under a condition. -/
def writeIf (condition : Bool) (p : Writing Unit) : Writing Unit :=
  if condition then p else pure ()

end Writing

/-- `Kind`. -/
inductive ArtifactKind where
  | record
  | checkpoint
  | hostEvents
  | accelerator
  | kernel
  deriving DecidableEq, Repr

def ArtifactKind.value : ArtifactKind → UInt8
  | .record => 1
  | .checkpoint => 2
  | .hostEvents => 3
  | .accelerator => 4
  | .kernel => 5

/-- `r`, `u`, `n`, `D` and two bytes that no text has. -/
def Artifact.kMagic : List UInt8 := [0x72, 0x75, 0x6e, 0x44, 0x1a, 0x0a]

def Artifact.kSchema : UInt8 := 1

/-- The bytes of a header. -/
def Artifact.encodeHeader (kind : ArtifactKind) : List UInt8 := Artifact.kMagic ++ [Artifact.kSchema, kind.value]

def Writing.header (kind : ArtifactKind) : Writing Unit := do
  raw Artifact.kMagic
  u8 Artifact.kSchema
  u8 kind.value

/-- The bytes a sink was given by `p`, or the code `p` failed with. -/
def Writing.save (sink : Sink) (p : Writing Unit) : Checked ReplayCode (List UInt8) := do
  let (_, w) ← (p >>= fun _ => flush) { sink := sink }
  pure w.sent.flatten

/-- The header of an artifact, read. -/
def Reading.readHeader {ε : Type} (kind : ArtifactKind) (short : ε) : Reading ε Unit := do
  let magic ← slice short Artifact.kMagic.length
  lift (require (magic = Artifact.kMagic) short)
  let schema ← readU8 short
  lift (require (schema = Artifact.kSchema) short)
  let found ← readU8 short
  lift (require (found = kind.value) short)

/-! ### What a writer has written -/

namespace Writer

/-- All bytes so far, those in the buffer included. -/
def written (w : Writer) : List UInt8 := w.sent.flatten ++ w.buffer

/-- The counters are those of the spans, and the buffer is inside its array. -/
structure Sound (w : Writer) : Prop where
  buffer_le : w.buffer.length ≤ kWriteSpanBytes
  bytes_eq : w.bytes.toNat = w.sent.flatten.length
  writes_eq : w.writes.toNat = w.sent.length
  sent_le : w.sent.length ≤ w.sent.flatten.length

/-- The sink takes as much as `code` beyond what there is. -/
structure Takes (w : Writer) (code : List UInt8) : Prop where
  accepts : ∀ sent span, w.sink.write sent span = true
  fits : w.written.length + code.length ≤ w.sink.maxBytes.toNat

/-- `w'` is `w` after writing `code`. -/
structure Extends (w : Writer) (code : List UInt8) (w' : Writer) : Prop where
  sink_eq : w'.sink = w.sink
  sound : w'.Sound
  written_eq : w'.written = w.written ++ code

theorem Extends.refl {w : Writer} (h : w.Sound) : Extends w [] w := ⟨rfl, h, by simp⟩

theorem Extends.trans {w₁ w₂ w₃ : Writer} {c₁ c₂ : List UInt8} (h₁ : Extends w₁ c₁ w₂)
    (h₂ : Extends w₂ c₂ w₃) : Extends w₁ (c₁ ++ c₂) w₃ :=
  ⟨h₂.sink_eq.trans h₁.sink_eq, h₂.sound, by
    rw [h₂.written_eq, h₁.written_eq, List.append_assoc]⟩

theorem Takes.of_append {w : Writer} {c₁ c₂ : List UInt8} (h : w.Takes (c₁ ++ c₂)) :
    w.Takes c₁ := by
  refine ⟨h.accepts, ?_⟩
  have := h.fits
  rw [List.length_append] at this
  omega

theorem Extends.takes {w w' : Writer} {c₁ c₂ : List UInt8} (h : Extends w c₁ w')
    (ht : w.Takes (c₁ ++ c₂)) : w'.Takes c₂ := by
  refine ⟨fun sent span => by rw [h.sink_eq]; exact ht.accepts sent span, ?_⟩
  have := ht.fits
  rw [List.length_append] at this
  rw [h.written_eq, h.sink_eq, List.length_append]
  omega

end Writer

/-! ### The judgements -/

/-- The codes that are the sink's doing. -/
def SinkFailed (code : ReplayCode) : Prop :=
  code = .artifactCapacityExceeded ∨ code = .artifactWriteFailed

/-- `p` writes `code` and returns `a`, unless the sink does not take as much. -/
def Puts (p : Writing α) (code : List UInt8) (a : α) : Prop :=
  ∀ w : Writer, w.Sound →
    (∃ w', p w = Except.ok (a, w') ∧ w.Extends code w') ∨
      ∃ failure, p w = Except.error (Stop.reject failure) ∧ SinkFailed failure ∧ ¬ w.Takes code

theorem writing_bind (p : Writing α) (f : α → Writing β) (w : Writer) :
    (p >>= f) w = p w >>= fun x => f x.1 x.2 := rfl

theorem puts_pure (a : α) : Puts (pure a : Writing α) [] a :=
  fun w h => Or.inl ⟨w, rfl, Writer.Extends.refl h⟩

theorem Puts.bind {p : Writing α} {f : α → Writing β} {c₁ c₂ : List UInt8} {a : α} {b : β}
    (hp : Puts p c₁ a) (hf : Puts (f a) c₂ b) : Puts (p >>= f) (c₁ ++ c₂) b := by
  intro w hw
  rcases hp w hw with ⟨w₁, hrun₁, hext₁⟩ | ⟨failure, hrun₁, hfailed, htakes⟩
  · rcases hf w₁ hext₁.sound with ⟨w₂, hrun₂, hext₂⟩ | ⟨failure, hrun₂, hfailed, htakes⟩
    · refine Or.inl ⟨w₂, ?_, hext₁.trans hext₂⟩
      rw [writing_bind, hrun₁, ok_bind]
      exact hrun₂
    · refine Or.inr ⟨failure, ?_, hfailed, fun ht => htakes (hext₁.takes ht)⟩
      rw [writing_bind, hrun₁, ok_bind]
      exact hrun₂
  · refine Or.inr ⟨failure, ?_, hfailed, fun ht => htakes ht.of_append⟩
    rw [writing_bind, hrun₁]
    rfl

/-- A computation that writes nothing first. -/
theorem Puts.bind_nil {p : Writing α} {f : α → Writing β} {code : List UInt8} {a : α} {b : β}
    (hp : Puts p [] a) (hf : Puts (f a) code b) : Puts (p >>= f) code b := by
  have := hp.bind hf
  rwa [List.nil_append] at this

theorem puts_lift {x : Checked ReplayCode α} {a : α} (h : x = Except.ok a) :
    Puts (Writing.lift x) [] a := by
  intro w hw
  refine Or.inl ⟨w, ?_, Writer.Extends.refl hw⟩
  rw [Writing.lift, h]
  rfl

theorem Puts.require_bind {p : Prop} [Decidable p] {result : ReplayCode} {f : Unit → Writing β}
    {code : List UInt8} {b : β} (hp : p) (hf : Puts (f ()) code b) :
    Puts (Writing.lift (require p result) >>= f) code b :=
  Puts.bind_nil (puts_lift (require_eq_ok.mpr hp)) hf

theorem puts_writeIf {condition : Bool} {p : Writing Unit} {code : List UInt8}
    (h : condition = true → Puts p code ()) :
    Puts (Writing.writeIf condition p) (if condition then code else []) () := by
  rcases condition with - | -
  · exact puts_pure ()
  · exact h rfl

/-! ### The operations -/

namespace Writer

/-- A span goes to the sink, or the sink does not take it. -/
theorem Sound.emit {w : Writer} (hw : w.Sound) {span : List UInt8}
    (hlen : span.length ≤ kWriteSpanBytes) :
    (∃ w' : Writer, Writing.emit span w = Except.ok ((), w') ∧ w'.Sound ∧ w'.sink = w.sink ∧
        w'.buffer = w.buffer ∧ w'.sent.flatten = w.sent.flatten ++ span) ∨
      ∃ failure, Writing.emit span w = Except.error (Stop.reject failure) ∧ SinkFailed failure ∧
        ((∀ sent span, w.sink.write sent span = true) →
          ¬ w.sent.flatten.length + span.length ≤ w.sink.maxBytes.toNat) := by
  rw [Writing.emit]
  by_cases hnil : span = []
  · subst hnil
    rw [if_pos rfl]
    exact Or.inl ⟨w, rfl, hw, rfl, rfl, by rw [List.append_nil]⟩
  rw [if_neg hnil]
  have hmax := w.sink.maxBytes.toNat_lt
  have hpos := List.length_pos_iff.mpr hnil
  have hspan : (UInt64.ofNat span.length).toNat = span.length := by
    rw [UInt64.toNat_ofNat', Nat.mod_eq_of_lt]
    unfold kWriteSpanBytes at hlen
    omega
  dsimp only
  by_cases hroom : checkedAdd w.bytes (UInt64.ofNat span.length) = true ∧
      ¬ w.bytes + UInt64.ofNat span.length > w.sink.maxBytes ∧ checkedAdd w.writes 1 = true
  · rw [require, if_pos hroom]
    obtain ⟨hbytes, -, hwrites⟩ := hroom
    have hbytes' := toNat_add_of_fits (checkedAdd_iff.mp hbytes)
    have hwrites' := toNat_add_of_fits (checkedAdd_iff.mp hwrites)
    rw [hspan, hw.bytes_eq] at hbytes'
    rw [hw.writes_eq, UInt64.toNat_one] at hwrites'
    by_cases hyes : w.sink.write w.sent span = true
    · rw [require, if_pos hyes]
      have hflat : (w.sent ++ [span]).flatten = w.sent.flatten ++ span := by simp
      refine Or.inl ⟨{ w with bytes := w.bytes + UInt64.ofNat span.length, writes := w.writes + 1,
                              sent := w.sent ++ [span] }, rfl, ⟨hw.buffer_le, ?_, ?_, ?_⟩, rfl,
        rfl, hflat⟩
      · rw [hflat, List.length_append, hbytes']
      · rw [List.length_append, List.length_singleton, hwrites']
      · rw [hflat, List.length_append, List.length_append, List.length_singleton]
        have := hw.sent_le
        omega
    · rw [require, if_neg hyes]
      exact Or.inr ⟨_, rfl, Or.inr rfl, fun haccepts => absurd (haccepts _ _) hyes⟩
  · -- had there been room, none of the counters could have overflowed
    rw [require, if_neg hroom]
    refine Or.inr ⟨_, rfl, Or.inl rfl, fun _ hle => hroom ?_⟩
    have hsum : w.bytes.toNat + (UInt64.ofNat span.length).toNat < 2 ^ 64 := by
      rw [hspan, hw.bytes_eq]
      omega
    refine ⟨checkedAdd_iff.mpr hsum, ?_, checkedAdd_iff.mpr ?_⟩
    · rw [gt_iff_lt, UInt64.lt_iff_toNat_lt, toNat_add_of_fits hsum, hspan, hw.bytes_eq]
      omega
    · rw [hw.writes_eq, UInt64.toNat_one]
      have := hw.sent_le
      omega

/-- The buffer is handed to the sink and is empty. -/
theorem Sound.flush {w : Writer} (hw : w.Sound) :
    (∃ w', Writing.flush w = Except.ok ((), w') ∧ w.Extends [] w' ∧ w'.buffer = []) ∨
      ∃ failure, Writing.flush w = Except.error (Stop.reject failure) ∧ SinkFailed failure ∧
        ¬ w.Takes [] := by
  rw [Writing.flush]
  by_cases hnil : w.buffer = []
  · rw [if_pos hnil]
    exact Or.inl ⟨w, rfl, Extends.refl hw, hnil⟩
  rw [if_neg hnil]
  rcases hw.emit hw.buffer_le with ⟨w', hrun, hsound, hsink, -, hflat⟩ |
    ⟨failure, hrun, hfailed, hfull⟩
  · rw [hrun]
    refine Or.inl ⟨{ w' with buffer := [] }, rfl, ⟨hsink, ?_, ?_⟩, rfl⟩
    · exact ⟨Nat.zero_le _, hsound.bytes_eq, hsound.writes_eq, hsound.sent_le⟩
    · rw [List.append_nil, written, written, hflat, List.append_nil]
  · rw [hrun]
    refine Or.inr ⟨failure, rfl, hfailed, fun ht => hfull ht.accepts ?_⟩
    have := ht.fits
    rwa [written, List.length_append, List.length_nil, Nat.add_zero] at this

/-- There is room in the buffer, or the sink does not take what is in it. -/
theorem Sound.room {w : Writer} (hw : w.Sound) {bytes : Nat} (hbytes : bytes ≤ kWriteSpanBytes) :
    (∃ w', Writing.room bytes w = Except.ok ((), w') ∧ w.Extends [] w' ∧
        w'.buffer.length + bytes ≤ kWriteSpanBytes) ∨
      ∃ failure, Writing.room bytes w = Except.error (Stop.reject failure) ∧ SinkFailed failure ∧
        ¬ w.Takes [] := by
  have hle := hw.buffer_le
  have hrun : Writing.room bytes w =
      if kWriteSpanBytes - w.buffer.length ≥ bytes then Except.ok ((), w)
      else Writing.flush w := by
    rw [Writing.room, require, if_pos (by omega)]
    rfl
  rw [hrun]
  by_cases hroom : kWriteSpanBytes - w.buffer.length ≥ bytes
  · rw [if_pos hroom]
    exact Or.inl ⟨w, rfl, Extends.refl hw, by omega⟩
  · rw [if_neg hroom]
    rcases hw.flush with ⟨w', hrun, hext, hnil⟩ | hfailed
    · refine Or.inl ⟨w', hrun, hext, ?_⟩
      rw [hnil]
      simpa using hbytes
    · exact Or.inr hfailed

end Writer

/-- Bytes that fit in the buffer are written. -/
theorem puts_stage {code : List UInt8} (hlen : code.length ≤ kWriteSpanBytes) :
    Puts (Writing.room code.length >>= fun _ => Writing.stage code) code () := by
  intro w hw
  rcases hw.room hlen with ⟨w', hrun, hext, hroom⟩ | ⟨failure, hrun, hfailed, htakes⟩
  · refine Or.inl ⟨{ w' with buffer := w'.buffer ++ code }, ?_, hext.sink_eq, ?_, ?_⟩
    · rw [writing_bind, hrun]
      rfl
    · refine ⟨?_, hext.sound.bytes_eq, hext.sound.writes_eq, hext.sound.sent_le⟩
      rw [List.length_append]
      exact hroom
    · have hwritten := hext.written_eq
      rw [List.append_nil] at hwritten
      rw [← hwritten, Writer.written, Writer.written, List.append_assoc]
  · refine Or.inr ⟨failure, ?_, hfailed, fun ht => htakes (Writer.Takes.of_append ht)⟩
    rw [writing_bind, hrun]
    rfl

theorem puts_u8 (value : UInt8) : Puts (Writing.u8 value) [value] () :=
  @puts_stage [value] (by rw [List.length_singleton]; decide)

theorem puts_fixed64 (value : UInt64) : Puts (Writing.fixed64 value) (encodeFixed64 value) () := by
  have h := @puts_stage (encodeFixed64 value) (by rw [length_encodeFixed64]; decide)
  rw [length_encodeFixed64] at h
  exact h

theorem puts_varuint (value : UInt64) : Puts (Writing.varuint value) (encodeVaruint value) () := by
  have hloop : ∀ turns value,
      Puts (Writing.varuintLoop turns value) (varuintGroups turns value) () := by
    intro turns
    induction turns with
    | zero => exact fun _ => puts_pure ()
    | succ turns ih =>
        intro value
        rw [Writing.varuintLoop, varuintGroups]
        by_cases hlast : value >>> 7 = 0
        · simp only [if_pos hlast, UInt8.or_zero]
          have h := (puts_u8 (value &&& 0x7f).toUInt8).bind (puts_pure ())
          rwa [List.append_nil] at h
        · simp only [if_neg hlast]
          rw [← List.singleton_append]
          exact (puts_u8 _).bind (ih _)
  exact hloop 10 value

theorem puts_sint (value : Int64) : Puts (Writing.sint value) (encodeSint value) () :=
  puts_varuint _

theorem puts_raw (bytes : List UInt8) : Puts (Writing.raw bytes) bytes () := by
  have hloop : ∀ (turns : Nat) (bytes : List UInt8), bytes.length ≤ turns → ∀ w : Writer,
      w.Sound → w.buffer = [] →
      (∃ w', Writing.rawLoop turns bytes w = Except.ok ((), w') ∧ w.Extends bytes w') ∨
        ∃ failure, Writing.rawLoop turns bytes w = Except.error (Stop.reject failure) ∧
          SinkFailed failure ∧ ¬ w.Takes bytes := by
    intro turns
    induction turns with
    | zero =>
        intro bytes hlen w hw _
        obtain rfl : bytes = [] := List.length_eq_zero_iff.mp (Nat.le_zero.mp hlen)
        exact Or.inl ⟨w, rfl, Writer.Extends.refl hw⟩
    | succ turns ih =>
        intro bytes hlen w hw hbuffer
        rw [Writing.rawLoop]
        by_cases hnil : bytes = []
        · subst hnil
          rw [if_pos rfl]
          exact Or.inl ⟨w, rfl, Writer.Extends.refl hw⟩
        rw [if_neg hnil, writing_bind]
        have hpos := List.length_pos_iff.mpr hnil
        have hsplit := List.take_append_drop kWriteSpanBytes bytes
        rcases hw.emit (List.length_take_le kWriteSpanBytes bytes) with
          ⟨w₁, hrun₁, hsound, hsink, hsame, hflat⟩ | ⟨failure, hrun₁, hfailed, hfull⟩
        · have hext : w.Extends (bytes.take kWriteSpanBytes) w₁ := by
            refine ⟨hsink, hsound, ?_⟩
            rw [Writer.written, Writer.written, hsame, hbuffer, hflat, List.append_nil,
              List.append_nil]
          rw [hrun₁, ok_bind]
          have hshort : (bytes.drop kWriteSpanBytes).length ≤ turns := by
            rw [List.length_drop]
            unfold kWriteSpanBytes
            omega
          rcases ih _ hshort w₁ hsound (hsame.trans hbuffer) with ⟨w₂, hrun₂, hext₂⟩ |
            ⟨failure, hrun₂, hfailed, htakes⟩
          · have hall := hext.trans hext₂
            rw [hsplit] at hall
            exact Or.inl ⟨w₂, hrun₂, hall⟩
          · refine Or.inr ⟨failure, hrun₂, hfailed, fun ht => htakes (hext.takes ?_)⟩
            rwa [hsplit]
        · rw [hrun₁]
          refine Or.inr ⟨failure, rfl, hfailed, fun ht => hfull ht.accepts ?_⟩
          have hfits := ht.fits
          rw [Writer.written, hbuffer, List.append_nil] at hfits
          have := List.length_take_le' kWriteSpanBytes bytes
          omega
  intro w hw
  rw [Writing.raw, writing_bind]
  rcases hw.flush with ⟨w₁, hrun₁, hext, hnil⟩ | ⟨failure, hrun₁, hfailed, htakes⟩
  · rw [hrun₁, ok_bind]
    rcases hloop bytes.length bytes (Nat.le_refl _) w₁ hext.sound hnil with ⟨w₂, hrun₂, hext₂⟩ |
      ⟨failure, hrun₂, hfailed, htakes⟩
    · exact Or.inl ⟨w₂, hrun₂, hext.trans hext₂⟩
    · exact Or.inr ⟨failure, hrun₂, hfailed, fun ht => htakes (hext.takes ht)⟩
  · rw [hrun₁]
    exact Or.inr ⟨failure, rfl, hfailed, fun ht => htakes (Writer.Takes.of_append ht)⟩

theorem puts_header (kind : ArtifactKind) : Puts (Writing.header kind) (Artifact.encodeHeader kind) () :=
  (puts_raw Artifact.kMagic).bind ((puts_u8 Artifact.kSchema).bind (puts_u8 kind.value))

/-! ### A whole artifact -/

theorem sound_start (sink : Sink) : ({ sink := sink } : Writer).Sound :=
  ⟨Nat.zero_le _, rfl, rfl, Nat.zero_le _⟩

/-- A sink that says yes and has the bytes takes all of them. -/
theorem Puts.save_eq {p : Writing Unit} {code : List UInt8} (h : Puts p code ()) {sink : Sink}
    (haccepts : ∀ sent span, sink.write sent span = true)
    (hfits : code.length ≤ sink.maxBytes.toNat) : Writing.save sink p = Except.ok code := by
  have htakes : ({ sink := sink } : Writer).Takes (code ++ []) := by
    refine ⟨haccepts, ?_⟩
    rw [List.append_nil]
    simpa [Writer.written] using hfits
  rw [Writing.save, writing_bind]
  rcases h _ (sound_start sink) with ⟨w₁, hrun₁, hext₁⟩ | ⟨failure, -, -, hnot⟩
  · rcases hext₁.sound.flush with ⟨w₂, hrun₂, hext₂, hnil⟩ | ⟨failure, -, -, hnot⟩
    · rw [hrun₁, ok_bind]
      dsimp only
      rw [hrun₂, ok_bind]
      have hwritten := (hext₁.trans hext₂).written_eq
      rw [Writer.written, hnil, List.append_nil, List.append_nil] at hwritten
      show Except.ok w₂.sent.flatten = _
      rw [hwritten]
      rfl
    · exact absurd (hext₁.takes htakes) hnot
  · exact absurd htakes.of_append hnot

/-- What a sink was given by a save that went well. -/
theorem Puts.of_save {p : Writing Unit} {code bytes : List UInt8} (h : Puts p code ())
    {sink : Sink} (hsave : Writing.save sink p = Except.ok bytes) : bytes = code := by
  rw [Writing.save, writing_bind] at hsave
  rcases h _ (sound_start sink) with ⟨w₁, hrun₁, hext₁⟩ | ⟨failure, hrun₁, -, -⟩
  · rw [hrun₁, ok_bind] at hsave
    dsimp only at hsave
    rcases hext₁.sound.flush with ⟨w₂, hrun₂, hext₂, hnil⟩ | ⟨failure, hrun₂, -, -⟩
    · rw [hrun₂, ok_bind] at hsave
      have hwritten := (hext₁.trans hext₂).written_eq
      rw [Writer.written, hnil, List.append_nil, List.append_nil] at hwritten
      rw [← Except.ok.inj hsave, hwritten]
      rfl
    · rw [hrun₂, error_bind] at hsave
      exact absurd hsave (by simp)
  · rw [hrun₁, error_bind, error_bind] at hsave
    exact absurd hsave (by simp)

/-! ### Reading a header -/

section Header

variable {ε : Type}

theorem reads_readHeader (kind : ArtifactKind) (short : ε) :
    Reads (Reading.readHeader kind short) (Artifact.encodeHeader kind) () := by
  refine (reads_slice short Artifact.kMagic).bind ?_
  refine Reads.require_bind rfl ?_
  rw [← List.singleton_append]
  refine (reads_readU8 short Artifact.kSchema).bind ?_
  refine Reads.require_bind rfl ?_
  rw [← List.append_nil [kind.value]]
  refine (reads_readU8 short kind.value).bind ?_
  intro r rest hin h
  rw [Reading.lift, require_eq_ok.mpr rfl]
  rfl

theorem consumes_readHeader (kind : ArtifactKind) (short : ε) :
    Consumes (Reading.readHeader kind short) fun _ code => code = Artifact.encodeHeader kind := by
  refine (consumes_slice short Artifact.kMagic.length).bind ?_
  rintro magic - ⟨rfl, -⟩
  refine Consumes.require_bind ?_
  rintro rfl
  refine (consumes_readU8 short).bind ?_
  rintro schema c₃ rfl
  refine Consumes.require_bind ?_
  rintro rfl
  refine (consumes_readU8 short).bind ?_
  rintro found c₅ rfl
  refine consumes_lift fun _ h => ?_
  rw [require_eq_ok.mp h]
  rfl

theorem safelyReads_readHeader (kind : ArtifactKind) (short : ε) :
    SafelyReads (Reading.readHeader kind short) fun _ => True := by
  refine (safelyReads_slice short _).bind fun magic _ => ?_
  refine SafelyReads.require_bind fun _ => ?_
  refine (safelyReads_readU8 short).bind fun schema _ => ?_
  refine SafelyReads.require_bind fun _ => ?_
  refine (safelyReads_readU8 short).bind fun found _ => ?_
  exact safelyReads_lift ((safely_require _ _).mono fun _ _ => trivial)

end Header

end RunD
