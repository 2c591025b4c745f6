/-
The law of a payload store: what was appended is what is read back.

A log of payloads, each with its role, is all there is to say about a store
from outside.  A well-formed call is accepted when its role and the bytes of
the log leave room for it, and then it adds its payload to the log.  Over the
limits that the runtime computes this is what a store does, whatever it finds
it has already kept (`performAll_log`).
-/
import RunD.PayloadAppend

namespace RunD

variable {ε : Type}

namespace Store

variable {H : ByteHasher} {store : Store} {entries : List Placed} {contents : List (List UInt8)}

/-! ### Reading what was stored -/

/-- The loop of `Read` reads the chunks its pieces stand for. -/
theorem readPieces_eq {blobs : List Blob} (hblobs : List.Forall₂ (Blob.Holds H) blobs contents)
    (outputSize : Nat) {pieces : List Piece} {chunks : List (List UInt8)}
    (hpieces : List.Forall₂ (fun piece chunk => contents[piece.blobIndex.toNat]? = some chunk)
      pieces chunks) (output : List UInt8) (hash : Option H.State)
    (habsorbing : Absorbing H hash output)
    (hsize : output.length + chunks.flatten.length ≤ outputSize) :
    ∃ hash', forEach pieces (readPiece H blobs outputSize) (output, hash) =
        Except.ok (output ++ chunks.flatten, hash') ∧
      Absorbing H hash' (output ++ chunks.flatten) := by
  induction hpieces generalizing output hash with
  | nil => exact ⟨hash, by simp [forEach, pure, Except.pure], by simpa using habsorbing⟩
  | @cons piece chunk pieces chunks hchunk _ ih =>
      rw [List.flatten_cons, List.length_append] at hsize
      obtain ⟨blob, hblob, hholds⟩ := forall₂_getElem? hblobs.flip hchunk
      have hlt := (List.getElem?_eq_some_iff.mp hblob).1
      have hread := hholds.size
      obtain ⟨next, hnext, -, hdecode⟩ := decodeInto_eq hholds.codes hholds.size habsorbing
      obtain ⟨hash', hrest, hfinal⟩ := ih (output ++ chunk) next hnext
        (by rw [List.length_append]; omega)
      rw [List.append_assoc, ← List.flatten_cons] at hrest hfinal
      refine ⟨hash', ?_, hfinal⟩
      have hstep : readPiece H blobs outputSize piece (output, hash) =
          Except.ok (output ++ chunk, next) := by
        have hroom : ¬ output.length > outputSize ∧
            ¬ blob.uncompressedBytes.toNat > outputSize - output.length := by
          omega
        rw [readPiece, require_of_holds hlt, ok_bind, fetch_of_lt hblob, ok_bind,
          require_of_holds hroom, ok_bind, hholds.hash, hread, hdecode]
        rfl
      rw [forEach, hstep]
      exact hrest

/-- The pieces of a record are those of its entry. -/
theorem Shows.recordPieces_eq (h : store.Shows H entries contents) {i : Nat} {entry : Placed}
    (hget : entries[i]? = some entry) {record : StoredRecord}
    (hrecord : store.records.items[i]? = some record) :
    store.recordPieces record = entry.pieces ∧ record.metadata = entry.metadata ∧
      record.recordHash = entry.recordHash H := by
  rw [h.records, Placed.layout_getElem? H hget, Nat.zero_add] at hrecord
  obtain rfl := Option.some.inj hrecord
  refine ⟨?_, rfl, rfl⟩
  have hle := h.pieces_le
  have hsplit : entries = entries.take i ++ entry :: entries.drop (i + 1) := by
    obtain ⟨hlt, hat⟩ := List.getElem?_eq_some_iff.mp hget
    rw [← hat, ← List.drop_eq_getElem_cons hlt, List.take_append_drop]
  have hpieces : store.pieces.items = (entries.take i).flatMap Placed.pieces ++
      (entry.pieces ++ (entries.drop (i + 1)).flatMap Placed.pieces) := by
    rw [h.pieces]
    nth_rewrite 1 [hsplit]
    rw [List.flatMap_append, List.flatMap_cons]
  have hlen := congrArg List.length hpieces
  rw [List.length_append, List.length_append] at hlen
  have hoffset : (UInt32.ofNat ((entries.take i).flatMap Placed.pieces).length).toNat =
      ((entries.take i).flatMap Placed.pieces).length := by
    rw [UInt32.toNat_ofNat']
    exact Nat.mod_eq_of_lt (by omega)
  have hcount : (UInt32.ofNat entry.pieces.length).toNat = entry.pieces.length := by
    rw [UInt32.toNat_ofNat']
    exact Nat.mod_eq_of_lt (by omega)
  rw [recordPieces]
  dsimp only
  rw [hoffset, hcount, if_neg (by omega), hpieces, List.drop_left, List.take_left]

/-- **A stored payload is read back as it was.** -/
theorem Shows.resolve_eq (h : store.Shows H entries contents) {i : Nat} {entry : Placed}
    (hget : entries[i]? = some entry) : store.resolve H i = Except.ok entry.bytes := by
  have hlt : i < store.records.items.length := by
    rw [h.records, Placed.length_layout]
    exact (List.getElem?_eq_some_iff.mp hget).1
  have hrecord : store.records.items[i]? = some store.records.items[i] :=
    List.getElem?_eq_getElem hlt
  generalize store.records.items[i] = record at hrecord
  obtain ⟨hpieces, hmetadata, -⟩ := h.recordPieces_eq hget hrecord
  have hstands := h.stands entry (List.mem_of_getElem? hget)
  have habsorbing : Absorbing H
      (if wholeChunkStored record entry.pieces store.backend.blobs = false then some H.start
        else none) [] := by
    split_ifs
    · exact absorbing_start
    · exact fun _ hnone => nomatch hnone
  obtain ⟨hash, hloop, hdone⟩ := readPieces_eq h.keeps.blobs entry.bytes.length hstands.pieces
    [] _ habsorbing (by rw [List.length_nil, Nat.zero_add]; exact Nat.le_refl _)
  rw [List.nil_append] at hloop hdone
  have hread : store.read H i entry.bytes.length = Except.ok entry.bytes := by
    rw [read, require, if_pos hlt]
    show (fetch store.records.items i >>= _) = _
    rw [fetch_of_lt hrecord, ok_bind, hmetadata, require, if_pos hstands.completed, hpieces]
    show (forEach entry.pieces (readPiece H store.backend.blobs entry.bytes.length)
      ([], if wholeChunkStored record entry.pieces store.backend.blobs = false then some H.start
        else none) >>= _) = _
    rw [hloop, ok_bind, require, if_pos]
    · rfl
    · refine ⟨rfl, ?_⟩
      intro state hstate
      rw [(hdone state hstate).finish, hstands.hash, Placed.bytes]
  rw [resolve, require, if_pos hlt]
  show (fetch store.records.items i >>= _) = _
  rw [fetch_of_lt hrecord, ok_bind, hmetadata, hstands.completed]
  exact hread

/-- Behind the last record there is nothing to read. -/
theorem resolve_missing {i : Nat} (hi : store.records.items.length ≤ i) :
    store.resolve H i = leave .hostPayloadMissing := by
  rw [resolve, require, if_neg (by omega)]
  rfl

/-! ### Room -/

/-- The payloads of a store take few pieces. -/
theorem sum_chunkCount_le (entries : List Placed) :
    (entries.map fun entry => chunkCount entry.bytes.length).sum ≤
      entries.length + Placed.total entries / kChunkBytes := by
  induction entries with
  | nil => exact Nat.zero_le _
  | cons entry entries ih =>
      have hone := chunkCount_le entry.bytes.length
      have htotal : Placed.total (entry :: entries) = entry.bytes.length + Placed.total entries := rfl
      rw [List.map_cons, List.sum_cons, List.length_cons, htotal]
      rw [kChunkBytes] at hone ih ⊢
      omega

theorem Shows.pieces_length (h : store.Shows H entries contents) :
    store.pieces.items.length =
      (entries.map fun entry => chunkCount entry.bytes.length).sum := by
  rw [h.pieces, List.length_flatMap]
  refine congrArg List.sum (List.map_congr_left ?_)
  intro entry hentry
  have hstands := h.stands entry hentry
  rw [hstands.pieces.length_eq, hstands.count]

/-- Every blob is referenced, so there are no more of them than pieces. -/
theorem Holds.blobs_le_pieces (h : store.Holds H entries contents) :
    contents.length ≤ store.pieces.items.length := by
  have hsubset : List.range contents.length ⊆
      store.pieces.items.map fun piece => piece.blobIndex.toNat := by
    intro i hi
    obtain ⟨piece, hmem, hat⟩ := h.referenced i (List.mem_range.mp hi)
    exact List.mem_map.mpr ⟨piece, hmem, hat⟩
  have hle := (List.subperm_of_subset List.nodup_range hsubset).length_le
  rwa [List.length_range, List.length_map] at hle

theorem Placed.length_eq_countRole (entries : List Placed) :
    entries.length = Placed.countRole .host entries + Placed.countRole .input entries := by
  induction entries with
  | nil => rfl
  | cons entry entries ih =>
      rw [Placed.countRole, Placed.countRole] at ih ⊢
      rw [List.length_cons, List.countP_cons, List.countP_cons, ih]
      cases entry.metadata.role <;> simp <;> omega

/-- **The limits of the runtime leave room for every payload they admit.** -/
theorem Holds.room (h : store.Holds H entries contents) {hosts inputs : UInt32} {bytes : UInt64}
    (hlimits : Limits.runtime hosts inputs bytes = some store.limits) {role : Role} {size : Nat}
    (hadmits : Admits store.limits entries role size) : store.Room size := by
  obtain ⟨hrole, htotal⟩ := hadmits
  have hpieces := h.pieces_length
  have hsum := sum_chunkCount_le entries
  have hcount := Placed.length_eq_countRole entries
  have hhosts := h.roles_le .host
  have hinputs := h.roles_le .input
  have hone := chunkCount_le size
  have hblobs := h.blobs_le_pieces
  have hkept := h.keeps.length_eq
  rw [Limits.runtime] at hlimits
  split_ifs at hlimits
  have heq := Option.some.inj hlimits
  rw [← heq] at hrole htotal hhosts hinputs
  have hmore : entries.length + 1 ≤ hosts.toNat + inputs.toNat := by
    simp only [roleLimit] at hrole hhosts hinputs
    cases role with
    | host =>
        dsimp only at hrole
        omega
    | input =>
        dsimp only at hrole
        omega
  have hlimit : store.limits.staged = chunkCount bytes.toNat ∧
      store.limits.pieces = hosts.toNat + inputs.toNat + bytes.toNat / kChunkBytes ∧
      store.limits.blobs = store.limits.pieces := by
    rw [← heq]
    exact ⟨rfl, rfl, rfl⟩
  dsimp only at htotal
  have hfits : store.pieces.items.length + chunkCount size ≤ store.limits.pieces := by
    rw [hlimit.2.1, hpieces]
    rw [kChunkBytes] at hsum hone ⊢
    omega
  refine ⟨?_, hfits, ?_⟩
  · rw [hlimit.1]
    exact chunkCount_mono (by omega)
  · rw [hlimit.2.2]
    omega

end Store

/-! ### Calls and the log -/

/-- A call that appends, with all it is given.  What is handed over lies in the memory that the
capture was made of. -/
inductive AppendCall (H : ByteHasher) where
  | capture (eventSequence : UInt64) (kind : EventKind) (payload : Capture H)
  | adopt (eventSequence : UInt64) (kind : EventKind) (bytes : Span) (payload : Capture H)
      (memory : OneMemory bytes payload.span)
  | input (source schema sequence : UInt64) (sourceRange : InputSourceRange) (bytes : Span)
      (payload : Capture H) (memory : OneMemory bytes payload.span)

/-- A payload of the log. -/
structure Logged where
  role : Role
  bytes : List UInt8
  deriving DecidableEq, Repr

namespace AppendCall

variable {H : ByteHasher}

def payload : AppendCall H → Capture H
  | .capture _ _ payload => payload
  | .adopt _ _ _ payload _ => payload
  | .input _ _ _ _ _ payload _ => payload

def role : AppendCall H → Role
  | .capture .. => .host
  | .adopt .. => .host
  | .input .. => .input

def logged (call : AppendCall H) : Logged := ⟨call.role, call.payload.span.bytes⟩

/-- The call itself. -/
def perform (call : AppendCall H) (store : Store) : Checked ε (Bool × Store) :=
  match call with
  | .capture eventSequence kind payload => store.append H eventSequence kind payload
  | .adopt eventSequence kind bytes payload _ =>
      store.appendAdopted H eventSequence kind bytes payload
  | .input source schema sequence sourceRange bytes payload _ =>
      store.appendInput H source schema sequence sourceRange bytes payload

/-- The bytes handed over are the bytes captured. -/
def handsOver (bytes : Span) (payload : Capture H) : Bool :=
  bytes.bytes.length == payload.span.bytes.length &&
    (bytes.bytes == [] || bytes.data == payload.span.data)

/-- A valid capture, the captured bytes if any are handed over, and of an input its source and
its schema. -/
def wellFormed : AppendCall H → Bool
  | .capture _ _ payload => payload.valid
  | .adopt _ _ bytes payload _ => payload.valid && handsOver bytes payload
  | .input source schema _ _ bytes payload _ =>
      source != 0 && schema != 0 && payload.valid && handsOver bytes payload

/-- The log and the limits leave room for the payload of the call. -/
def admitted (limits : Limits) (log : List Logged) (call : AppendCall H) : Bool :=
  decide (log.countP (·.role = call.role) < Store.roleLimit limits call.role) &&
    decide ((log.map fun entry => entry.bytes.length).sum + call.payload.span.bytes.length ≤
      limits.bytes.toNat)

/-- Whether a call succeeds, as far as the log can tell. -/
def succeeds (limits : Limits) (log : List Logged) (call : AppendCall H) : Bool :=
  call.wellFormed && call.admitted limits log

/-! ### One call -/

/-- The record a call appends. -/
def record : AppendCall H → StoredRecord
  | .capture eventSequence kind payload =>
      { metadata :=
          { role := .host
            eventSequence := eventSequence
            kind := kind
            completedBytes := UInt64.ofNat payload.span.bytes.length
            payloadHash := payload.hash } }
  | .adopt eventSequence kind bytes payload _ =>
      { metadata :=
          { role := .host
            eventSequence := eventSequence
            kind := kind
            completedBytes := UInt64.ofNat bytes.bytes.length
            payloadHash := payload.hash } }
  | .input source schema sequence sourceRange bytes payload _ =>
      { metadata :=
          { role := .input
            inputSource := source
            inputSchema := schema
            inputSequence := sequence
            sourceEventOffset := sourceRange.eventOffset
            sourceEventCount := sourceRange.eventCount
            sourcePayloadOffset := sourceRange.payloadOffset
            sourcePayloadCount := sourceRange.payloadCount
            sourceHash := sourceRange.hash
            completedBytes := UInt64.ofNat bytes.bytes.length
            payloadHash := payload.hash } }

/-- What a call hands over. -/
def adopted : AppendCall H → Span
  | .capture .. => Store.noSpan
  | .adopt _ _ bytes _ _ => bytes
  | .input _ _ _ _ bytes _ _ => bytes

/-- What a call looks at before it appends. -/
def guarded : AppendCall H → Bool
  | .capture _ _ payload => payload.valid
  | .adopt _ _ _ payload _ => payload.valid
  | .input source schema _ _ _ payload _ => source != 0 && schema != 0 && payload.valid

variable (call : AppendCall H)

theorem oneMemory : OneMemory call.adopted call.payload.span := by
  cases call with
  | capture eventSequence kind payload =>
      intro hdata _
      exact (payload.span.null hdata.symm).symm
  | adopt eventSequence kind bytes payload memory => exact memory
  | input source schema sequence sourceRange bytes payload memory => exact memory

theorem role_record : call.record.metadata.role = call.role := by
  cases call with
  | capture => rfl
  | adopt => rfl
  | input => rfl

theorem perform_eq (store : Store) : (call.perform store : Checked ε (Bool × Store)) =
    if call.guarded = true then store.appendRecord H call.record call.payload call.adopted
    else Except.ok (false, store) := by
  cases call with
  | capture eventSequence kind payload =>
      show store.append H eventSequence kind payload = _
      rw [Store.append]
      cases hvalid : payload.valid with
      | true =>
          rw [if_neg Bool.noConfusion,
            if_pos (show (capture eventSequence kind payload).guarded = true from hvalid)]
          rfl
      | false =>
          rw [if_pos rfl, if_neg (by rw [guarded, hvalid]; exact Bool.noConfusion)]
          rfl
  | adopt eventSequence kind bytes payload memory =>
      show store.appendAdopted H eventSequence kind bytes payload = _
      rw [Store.appendAdopted]
      cases hvalid : payload.valid with
      | true =>
          rw [if_neg Bool.noConfusion, if_pos
            (show (adopt eventSequence kind bytes payload memory).guarded = true from hvalid)]
          rfl
      | false =>
          rw [if_pos rfl, if_neg (by rw [guarded, hvalid]; exact Bool.noConfusion)]
          rfl
  | input source schema sequence sourceRange bytes payload memory =>
      show store.appendInput H source schema sequence sourceRange bytes payload = _
      rw [Store.appendInput]
      by_cases hguard : source = 0 ∨ schema = 0 ∨ payload.valid = false
      · rw [if_pos hguard, if_neg ?_]
        · rfl
        · simp only [guarded, Bool.and_eq_true, bne_iff_ne, ne_eq, Bool.not_eq_true, not_and]
          rcases hguard with hzero | hzero | hinvalid
          · exact fun hall => absurd hzero hall.1
          · exact fun hall => absurd hzero hall.2
          · exact fun _ => hinvalid
      · rw [if_neg hguard, if_pos ?_]
        · rfl
        · rw [not_or, not_or, Bool.not_eq_false] at hguard
          simp only [guarded, Bool.and_eq_true, bne_iff_ne, ne_eq]
          exact ⟨⟨hguard.1, hguard.2.1⟩, hguard.2.2⟩

/-- What is handed over belongs to the capture. -/
theorem handsOver_iff {bytes : Span} {payload : Capture H} :
    handsOver bytes payload = true ↔
      (UInt64.ofNat bytes.bytes.length).toNat = payload.span.bytes.length ∧
        (bytes.bytes = [] ∨ bytes.data = payload.span.data ∧
          bytes.bytes.length = payload.span.bytes.length) := by
  have hword : (UInt64.ofNat bytes.bytes.length).toNat = bytes.bytes.length := by
    rw [UInt64.toNat_ofNat']
    exact Nat.mod_eq_of_lt bytes.addressable
  rw [handsOver, Bool.and_eq_true, Bool.or_eq_true, beq_iff_eq, beq_iff_eq, beq_iff_eq, hword]
  constructor
  · rintro ⟨hlen, hsame⟩
    exact ⟨hlen, hsame.imp_right fun hdata => ⟨hdata, hlen⟩⟩
  · rintro ⟨hlen, hsame⟩
    exact ⟨hlen, hsame.imp_right And.left⟩

/-- A call is well-formed when it looks so and its record belongs to its capture. -/
theorem wellFormed_iff : call.wellFormed = true ↔
    call.guarded = true ∧ Store.Proper call.record call.payload call.adopted := by
  cases call with
  | capture eventSequence kind payload =>
      constructor
      · intro hvalid
        refine ⟨hvalid, hvalid, ?_, rfl, Or.inl rfl⟩
        show (UInt64.ofNat payload.span.bytes.length).toNat = _
        rw [UInt64.toNat_ofNat']
        exact Nat.mod_eq_of_lt payload.span.addressable
      · exact And.left
  | adopt eventSequence kind bytes payload memory =>
      rw [wellFormed, Bool.and_eq_true, handsOver_iff]
      constructor
      · rintro ⟨hvalid, hlen, hsame⟩
        exact ⟨hvalid, hvalid, hlen, rfl, hsame⟩
      · rintro ⟨hvalid, hproper⟩
        exact ⟨hvalid, hproper.completed, hproper.adopted⟩
  | input source schema sequence sourceRange bytes payload memory =>
      rw [wellFormed, Bool.and_eq_true, handsOver_iff]
      constructor
      · rintro ⟨hguard, hlen, hsame⟩
        exact ⟨hguard, (Bool.and_eq_true _ _ ▸ hguard).2, hlen, rfl, hsame⟩
      · rintro ⟨hguard, hproper⟩
        exact ⟨hguard, hproper.completed, hproper.adopted⟩

end AppendCall

section Runs

variable {H : ByteHasher}

/-- Calls one after the other, and their answers. -/
def performAll (store : Store) : List (AppendCall H) → Checked ε (List Bool × Store)
  | [] => pure ([], store)
  | call :: calls => do
      let first ← call.perform store
      let rest ← performAll first.2 calls
      pure (first.1 :: rest.1, rest.2)

/-- The answers to calls and the log behind them, from a log on. -/
def logAll (limits : Limits) (log : List Logged) : List (AppendCall H) → List Bool × List Logged
  | [] => ([], log)
  | call :: calls =>
      let answer := call.succeeds limits log
      let rest := logAll limits (if answer then log ++ [call.logged] else log) calls
      (answer :: rest.1, rest.2)

/-- The log of what a store holds. -/
def logOf (entries : List Placed) : List Logged :=
  entries.map fun entry => ⟨entry.metadata.role, entry.bytes⟩

theorem admitted_iff {limits : Limits} {entries : List Placed} {call : AppendCall H} :
    call.admitted limits (logOf entries) = true ↔
      Store.Admits limits entries call.role call.payload.span.bytes.length := by
  rw [AppendCall.admitted, Bool.and_eq_true, decide_eq_true_eq, decide_eq_true_eq, logOf,
    List.countP_map, List.map_map]
  exact Iff.rfl

/-- **One call**, on a store that holds something: it adds its payload or changes nothing. -/
theorem Store.Holds.perform_eq {store : Store} {entries : List Placed}
    {contents : List (List UInt8)} (h : store.Holds H entries contents) (call : AppendCall H) :
    ∃ answer next, (call.perform store : Checked ε (Bool × Store)) = Except.ok (answer, next) ∧
      next.limits = store.limits ∧
      ((answer = true ∧ call.succeeds store.limits (logOf entries) = true ∧
          ∃ pieces more, next.Holds H (entries ++ [⟨call.record.metadata, pieces,
            cut call.payload.span.bytes (chunkCount call.payload.span.bytes.length)⟩])
            (contents ++ more)) ∨
        answer = false ∧ store.Unchanged next ∧ next.Holds H entries contents ∧
          ¬ (call.succeeds store.limits (logOf entries) = true ∧
            store.Room call.payload.span.bytes.length)) := by
  have hsucceeds : call.succeeds store.limits (logOf entries) = true ↔
      (call.guarded = true ∧ Store.Proper call.record call.payload call.adopted) ∧
        Store.Admits store.limits entries call.role call.payload.span.bytes.length := by
    rw [AppendCall.succeeds, Bool.and_eq_true, call.wellFormed_iff, admitted_iff]
  rw [call.perform_eq]
  by_cases hguard : call.guarded = true
  · rw [if_pos hguard]
    obtain ⟨⟨answer, next⟩, hrun, hresult⟩ :=
      @Store.Holds.appendRecord_eq ε H store entries contents h call.record call.payload _
        call.oneMemory
    refine ⟨answer, next, hrun, ?_⟩
    rcases hresult with hno | hyes
    · refine ⟨hno.limits, Or.inr ⟨hno.answer, hno.unchanged, hno.holds, ?_⟩⟩
      rintro ⟨hall, hroom⟩
      obtain ⟨⟨-, hproper⟩, hadmits⟩ := hsucceeds.mp hall
      exact hno.reason ⟨hproper, by rwa [call.role_record], hroom⟩
    · have hadmits := hyes.admits
      rw [call.role_record] at hadmits
      exact ⟨hyes.limits, Or.inl ⟨hyes.answer, hsucceeds.mpr ⟨⟨hguard, hyes.proper⟩, hadmits⟩,
        hyes.entry⟩⟩
  · rw [if_neg hguard]
    refine ⟨false, store, rfl, rfl, Or.inr ⟨rfl, Store.Unchanged.refl store, h, ?_⟩⟩
    exact fun hall => hguard (hsucceeds.mp hall.1).1.1

/-- The log after a call that added an entry. -/
theorem logOf_concat (entries : List Placed) (call : AppendCall H) (pieces : List Piece) :
    logOf (entries ++ [⟨call.record.metadata, pieces,
      cut call.payload.span.bytes (chunkCount call.payload.span.bytes.length)⟩]) =
      logOf entries ++ [call.logged] := by
  rw [logOf, List.map_append]
  show logOf entries ++ [⟨call.record.metadata.role, Placed.bytes _⟩] = _
  rw [call.role_record, Placed.bytes, flatten_cut_chunkCount]
  rfl

/-- A call over the limits of the runtime does what the log says. -/
theorem Store.Holds.perform_runtime {store : Store} {entries : List Placed}
    {contents : List (List UInt8)} (h : store.Holds H entries contents) {hosts inputs : UInt32}
    {bytes : UInt64} (hlimits : Limits.runtime hosts inputs bytes = some store.limits)
    (call : AppendCall H) :
    ∃ next, (call.perform store : Checked ε (Bool × Store)) =
        Except.ok (call.succeeds store.limits (logOf entries), next) ∧
      next.limits = store.limits ∧
      (call.succeeds store.limits (logOf entries) = false → store.Unchanged next) ∧
      ∃ entries' contents', next.Holds H entries' contents' ∧
        logOf entries' = if call.succeeds store.limits (logOf entries) = true then
          logOf entries ++ [call.logged] else logOf entries := by
  obtain ⟨answer, next, hrun, hsame, hcase⟩ := @Store.Holds.perform_eq ε H _ _ _ h call
  rcases hcase with ⟨hanswer, hall, pieces, more, hnext⟩ | ⟨hanswer, hunchanged, hnext, hno⟩
  · refine ⟨next, ?_, hsame, ?_, _, _, hnext, ?_⟩
    · rw [hrun, hanswer, hall]
    · exact fun hfalse => absurd (hall.symm.trans hfalse) Bool.noConfusion
    · rw [if_pos hall]
      exact logOf_concat entries call pieces
  · have hfalse : call.succeeds store.limits (logOf entries) = false := by
      by_contra hall
      rw [Bool.not_eq_false] at hall
      have hadmits := hall
      rw [AppendCall.succeeds, Bool.and_eq_true, admitted_iff] at hadmits
      exact hno ⟨hall, h.room hlimits hadmits.2⟩
    refine ⟨next, ?_, hsame, fun _ => hunchanged, entries, contents, hnext, ?_⟩
    · rw [hrun, hanswer, hfalse]
    · rw [if_neg (by rw [hfalse]; exact Bool.noConfusion)]

/-- Calls over the limits of the runtime do what the log says. -/
theorem Store.Holds.performAll_eq {store : Store} {entries : List Placed}
    {contents : List (List UInt8)} (h : store.Holds H entries contents) {hosts inputs : UInt32}
    {bytes : UInt64} (hlimits : Limits.runtime hosts inputs bytes = some store.limits)
    (calls : List (AppendCall H)) :
    ∃ final entries' contents', (performAll store calls : Checked ε (List Bool × Store)) =
        Except.ok ((logAll store.limits (logOf entries) calls).1, final) ∧
      final.limits = store.limits ∧ final.Holds H entries' contents' ∧
      logOf entries' = (logAll store.limits (logOf entries) calls).2 := by
  induction calls generalizing store entries contents with
  | nil => exact ⟨store, entries, contents, rfl, rfl, h, rfl⟩
  | cons call calls ih =>
      obtain ⟨next, hrun, hsame, -, entries', contents', hnext, hlog⟩ :=
        @Store.Holds.perform_runtime ε H _ _ _ h _ _ _ hlimits call
      obtain ⟨final, entries'', contents'', hrest, hlast, hfinal, hlog'⟩ :=
        ih hnext (by rw [hsame]; exact hlimits)
      rw [hsame, hlog] at hrest hlog'
      refine ⟨final, entries'', contents'', ?_, hlast.trans hsame, hfinal, hlog'⟩
      rw [performAll, hrun, ok_bind]
      dsimp only
      rw [hrest, ok_bind]
      rfl

/-! ### From a fresh store on -/

/-- **A fresh store holds nothing.** -/
theorem Store.holds_make {storage : MemoryStorage} {limits : Limits} {store : Store}
    (h : Store.make storage limits = some store) : store.Holds H [] [] ∧ store.limits = limits := by
  rw [Store.make] at h
  cases hstaged : PayloadIndex.make limits.staged with
  | none =>
      rw [hstaged] at h
      cases h
  | some stagedIndex =>
      cases hbackend : Backend.make limits.blobs with
      | none =>
          rw [hstaged, hbackend] at h
          cases h
      | some backend =>
          rw [hstaged, hbackend] at h
          dsimp only at h
          split_ifs at h with hrefused
          cases h
          rw [Backend.make] at hbackend
          cases hindex : PayloadIndex.make limits.blobs with
          | none =>
              rw [hindex] at hbackend
              cases hbackend
          | some index =>
              rw [hindex] at hbackend
              cases hbackend
              obtain ⟨hsized, -, hcapacity⟩ := PayloadIndex.sized_make hstaged
              obtain ⟨hblobs, hempty, hroom⟩ := PayloadIndex.sized_make hindex
              simp only [fitsU32, decide_eq_false_iff_not, not_or, not_lt, not_not] at hrefused
              refine ⟨?_, rfl⟩
              exact
                { keeps :=
                    { blobs := List.Forall₂.nil
                      sized := hblobs
                      indexed := hempty
                      encoded := rfl
                      writable := rfl }
                  records := rfl
                  pieces := rfl
                  stands := fun entry hentry => absurd hentry List.not_mem_nil
                  pieces_le := Nat.zero_le _
                  stagedIndex := hsized
                  index_capacity := hcapacity
                  pieces_capacity := Nat.zero_max _
                  blobs_capacity := Nat.zero_max _
                  accepted :=
                    { records := hrefused.2.1
                      pieces := hrefused.2.2.1
                      blobs := hrefused.2.2.2.2.2.2
                      staged := hrefused.2.2.2.2.2.1 }
                  referenced := fun i hi => absurd hi (Nat.not_lt_zero i)
                  encoded_le := Nat.zero_le _
                  logical := rfl
                  logical_le := Nat.zero_le _
                  roles := fun role => by cases role <;> rfl
                  roles_le := fun role => Nat.zero_le _
                  capacity := Nat.zero_max _
                  blobs_capacity' := hroom
                  fresh := ⟨rfl, rfl⟩
                  unpublished := ⟨rfl, rfl⟩
                  growths := fun _ => ⟨rfl, rfl⟩ }

/-- **A store over the limits of the runtime keeps what the log keeps.**  Every call answers what
the log says, whatever the hash does; behind the calls every payload of the log reads back, and a
call that fails leaves everything as it was. -/
theorem payload_store_content {storage : MemoryStorage} {limits : Limits} {hosts inputs : UInt32}
    {bytes : UInt64} {store : Store} (hlimits : Limits.runtime hosts inputs bytes = some limits)
    (hstore : Store.make storage limits = some store) (calls : List (AppendCall H)) :
    ∃ final, (performAll store calls : Checked ε (List Bool × Store)) =
        Except.ok ((logAll limits [] calls).1, final) ∧
      final.records.items.length = (logAll limits [] calls).2.length ∧
      (∀ i entry, (logAll limits [] calls).2[i]? = some entry →
        final.resolve H i = Except.ok entry.bytes) ∧
      ∀ call : AppendCall H, ∃ next, (call.perform final : Checked ε (Bool × Store)) =
          Except.ok (call.succeeds limits (logAll limits [] calls).2, next) ∧
        (call.succeeds limits (logAll limits [] calls).2 = false → final.Unchanged next) := by
  obtain ⟨hfresh, hsame⟩ := Store.holds_make (H := H) hstore
  rw [← hsame] at hlimits ⊢
  obtain ⟨final, entries, contents, hrun, hkept, hfinal, hlog⟩ :=
    @Store.Holds.performAll_eq ε H _ _ _ hfresh _ _ _ hlimits calls
  have hempty : logOf [] = [] := rfl
  rw [hempty] at hrun hlog
  refine ⟨final, hrun, ?_, ?_, ?_⟩
  · rw [← hlog, hfinal.records, logOf, List.length_map, Placed.length_layout]
  · intro i entry hentry
    rw [← hlog, logOf, List.getElem?_map] at hentry
    obtain ⟨placed, hplaced, hbytes⟩ := Option.map_eq_some_iff.mp hentry
    rw [hfinal.toShows.resolve_eq hplaced, ← hbytes]
  · intro call
    obtain ⟨next, hnext, -, hunchanged, -⟩ :=
      @Store.Holds.perform_runtime ε H _ _ _ hfinal _ _ _ (by rw [hkept]; exact hlimits) call
    rw [hkept, hlog] at hnext hunchanged
    exact ⟨next, hnext, hunchanged⟩

end Runs

/-! ### One byte in a small store -/

def oneByte : Span where
  data := 64
  bytes := [7]
  addressable := by decide
  null := fun h => absurd h (by decide)

/-- An append of one byte. -/
def appendOne (source : UInt64) : AppendCall (ByteHasher.ofHash ByteHasher.xxh3Short) :=
  .input source 1 0 {} oneByte (Capture.read _ oneByte) fun _ _ => rfl

/-- The limits of one input of one byte. -/
def oneInput : Limits := { inputs := 1, pieces := 1, blobs := 1, staged := 1, bytes := 1 }

theorem runtime_oneInput : Limits.runtime 0 1 1 = some oneInput := by decide

theorem isSome_make_oneInput : (Store.make {} oneInput).isSome = true := by rfl

theorem payload_store_content_oneInput :
    Limits.runtime 0 1 1 = some oneInput ∧
      ∃ store final, Store.make {} oneInput = some store ∧
        (performAll store [appendOne 1, appendOne 1] : Checked Unit (List Bool × Store)) =
          Except.ok ([true, false], final) ∧
        final.resolve (ByteHasher.ofHash ByteHasher.xxh3Short) 0 = Except.ok [7] := by
  obtain ⟨store, hstore⟩ := Option.isSome_iff_exists.mp isSome_make_oneInput
  obtain ⟨final, hrun, -, hresolve, -⟩ :=
    payload_store_content (ε := Unit) runtime_oneInput hstore [appendOne 1, appendOne 1]
  have hlog : logAll oneInput [] [appendOne 1, appendOne 1] = ([true, false], [⟨.input, [7]⟩]) := by
    decide
  rw [hlog] at hrun hresolve
  exact ⟨runtime_oneInput, store, final, hstore, hrun, hresolve 0 _ rfl⟩

/-- An input without a source fails although the limits leave room for it. -/
theorem appends_within_limits_may_fail :
    ¬ ∀ (H : ByteHasher) (limits : Limits) (hosts inputs : UInt32) (bytes : UInt64) (store : Store),
        Limits.runtime hosts inputs bytes = some limits → Store.make {} limits = some store →
        ∀ call : AppendCall H, ∃ next, (call.perform store : Checked Unit (Bool × Store)) =
          Except.ok (call.admitted limits [], next) := by
  intro h
  obtain ⟨store, hstore⟩ := Option.isSome_iff_exists.mp isSome_make_oneInput
  obtain ⟨next, hnext⟩ := h _ _ _ _ _ store runtime_oneInput hstore (appendOne 0)
  have hroom : (appendOne 0).admitted oneInput [] = true := by decide
  rw [hroom, AppendCall.perform_eq] at hnext
  have hguard : (appendOne 0).guarded = false := by decide
  rw [hguard, if_neg Bool.noConfusion] at hnext
  exact absurd (congrArg Prod.fst (Except.ok.inj hnext)) Bool.noConfusion

end RunD
