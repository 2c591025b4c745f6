/-
The run-length code over spans.

Rle.lean takes a code apart as a list.  Here the functions of the codec stand
with the places they read and write: a place outside its span, or a difference
of sizes that wraps, is a fault.  The callbacks of the walk answer whether to
go on, and what they did before they answered no stays done.

Everything rests on one simulation (`walkRle_simulates`): a walk over a span
does what the walk over the list behind the index does, for any view of the
caller's state.  Two callers with the same view therefore see the same bytes
in the same order, whether the walk comes to its end or not.
-/
import RunD.CheckedSize
import RunD.Payload

namespace RunD

variable {ε α σ τ : Type}

/-! ### Byte strings -/

/-- The contents of a span: not more bytes than a size counts. -/
structure ByteString where
  bytes : List UInt8
  addressable : bytes.length < 2 ^ 64

namespace ByteString

/-- `size()`, as the 64-bit word that is passed on. -/
def size (s : ByteString) : UInt64 := UInt64.ofNat s.bytes.length

@[simp] theorem toNat_size (s : ByteString) : s.size.toNat = s.bytes.length := by
  rw [size, UInt64.toNat_ofNat']
  exact Nat.mod_eq_of_lt s.addressable

end ByteString

namespace Rle

/-! ### The encoder -/

/-- The loop of `RepeatRunLength`. -/
def runLoop (bytes : List UInt8) (offset length : Nat) : Checked Unit Nat :=
  if _h : offset + length < bytes.length ∧ length < 130 then do
    let byte ← fetch bytes (offset + length)
    let value ← fetch bytes offset
    if byte = value then runLoop bytes offset (length + 1) else pure length
  else pure length
termination_by 130 - length

/-- `RepeatRunLength`. -/
def repeatRunLength (bytes : List UInt8) (offset : Nat) : Checked Unit Nat :=
  runLoop bytes offset 1

/-- The loop of `EncodeRle` that measures a literal; it returns `index` and `literal_length`. -/
def literalLoop (bytes : List UInt8) (index length : Nat) : Checked Unit (Nat × Nat) :=
  if _h : index < bytes.length ∧ length < 128 then do
    let run ← repeatRunLength bytes index
    if run ≥ 3 then pure (index, length) else literalLoop bytes (index + 1) (length + 1)
  else pure (index, length)
termination_by 128 - length

/-- The loop of `EncodeRle`, for a number of turns; it leaves when they do not suffice. -/
def encodeLoop (bytes : List UInt8) : Nat → Nat → List UInt8 → Checked Unit (List UInt8)
  | 0, _, _ => leave ()
  | turns + 1, index, encoded =>
      if index < bytes.length then do
        let run ← repeatRunLength bytes index
        if run ≥ 3 then do
          let value ← fetch bytes index
          encodeLoop bytes turns (index + run)
            (encoded ++ [0x80 ||| UInt8.ofNat (run - 3)] ++ [value])
        else do
          let measured ← literalLoop bytes index 0
          let announced ← sizeSub measured.2 1
          let literal ← subspan bytes index measured.2
          encodeLoop bytes turns measured.1 (encoded ++ [UInt8.ofNat announced] ++ literal)
      else pure encoded

/-- `EncodeRle`. -/
def encodeRle (bytes : List UInt8) : Checked Unit (List UInt8) :=
  encodeLoop bytes (bytes.length + 1) 0 []

/-! ### The walk -/

/-- The loop of `WalkRle`.  A callback answers whether to go on and what the state is then. -/
def walkRle (outputSize : Nat) (repeats : σ → Nat → Nat → UInt8 → Checked ε (Bool × σ))
    (literal : σ → Nat → List UInt8 → Checked ε (Bool × σ)) (encoded : List UInt8)
    (index written : Nat) (state : σ) : Checked ε (Bool × σ) :=
  if _h : index < encoded.length then do
    let tag ← fetch encoded index
    if tag &&& 0x80 ≠ 0 then
      let length := (tag &&& 0x7f).toNat + 3
      if index + 1 ≥ encoded.length then pure (false, state)
      else do
        let room ← sizeSub outputSize written
        if length > room then pure (false, state)
        else do
          let value ← fetch encoded (index + 1)
          let result ← repeats state written length value
          if result.1 = false then pure (false, result.2)
          else walkRle outputSize repeats literal encoded (index + 2) (written + length) result.2
    else do
      let length := tag.toNat + 1
      let behind ← sizeSub encoded.length (index + 1)
      if length > behind then pure (false, state)
      else do
        let room ← sizeSub outputSize written
        if length > room then pure (false, state)
        else do
          let bytes ← subspan encoded (index + 1) length
          let result ← literal state written bytes
          if result.1 = false then pure (false, result.2)
          else
            walkRle outputSize repeats literal encoded (index + 1 + length) (written + length)
              result.2
  else pure (decide (written = outputSize), state)
termination_by encoded.length - index

/-! ### The five consumers -/

section Consumers

variable (visit : τ → List UInt8 → τ)

/-- `DecodeRleInto`; `visit` is what it does to the two hashes with the bytes it wrote. -/
def decodeRleInto (encoded output : List UInt8) (hashes : τ) :
    Checked ε (Bool × List UInt8 × τ) :=
  walkRle output.length
    (fun (state : List UInt8 × τ) offset length value => do
      let output ← overwrite state.1 offset (List.replicate length value)
      let written ← subspan output offset length
      pure (true, output, visit state.2 written))
    (fun state offset literal => do
      let output ← overwrite state.1 offset literal
      pure (true, output, visit state.2 literal))
    encoded 0 0 (output, hashes)

/-- `WalkDecoded`; `visit` is `append`. -/
def walkDecoded (uncompressedBytes : UInt64) (codec : Codec) (encoded : List UInt8) (state : τ) :
    Checked ε (Bool × τ) :=
  match codec with
  | .raw =>
      if encoded.length ≠ uncompressedBytes.toNat then pure (false, state)
      else pure (true, visit state encoded)
  | .rle => do
      let result ← walkRle uncompressedBytes.toNat
        (fun (state : List UInt8 × τ) _ length value => do
          let repeated ← overwrite state.1 0 (List.replicate length value)
          let shown ← subspan repeated 0 length
          pure (true, repeated, visit state.2 shown))
        (fun state _ literal => pure (true, state.1, visit state.2 literal))
        encoded 0 0 (List.replicate 130 0, state)
      pure (result.1, result.2.2)

end Consumers

/-- `DecodeRle`. -/
def decodeRle (encoded : List UInt8) (expectedUncompressedBytes : UInt64) :
    Checked ε (Option (List UInt8)) := do
  let result ← decodeRleInto (fun (_ : Unit) _ => ()) encoded
    (List.replicate expectedUncompressedBytes.toNat 0) ()
  if result.1 = false then pure none else pure (some result.2.1)

/-- `RleMatches`. -/
def rleMatches (encoded expected : List UInt8) : Checked ε Bool := do
  let result ← walkRle expected.length
    (fun (_ : Unit) offset length value => do
      let stretch ← subspan expected offset length
      pure (stretch.all (· == value), ()))
    (fun _ offset literal => do
      let stretch ← subspan expected offset literal.length
      pure (stretch == literal, ()))
    encoded 0 0 ()
  pure result.1

/-! ### The encoder over spans -/

theorem runLoop_eq {bytes : List UInt8} {offset length : Nat} {value : UInt8}
    (hvalue : bytes[offset]? = some value) :
    runLoop bytes offset length =
      Except.ok (RunD.runLoop value length (bytes.drop (offset + length))) := by
  induction hn : 130 - length using Nat.strongRecOn generalizing length with
  | _ n ih =>
      subst hn
      rw [runLoop]
      split_ifs with hmore
      · have hbyte : bytes[offset + length]? = some bytes[offset + length] :=
          List.getElem?_eq_getElem hmore.1
        rw [fetch_of_lt hbyte, ok_bind, fetch_of_lt hvalue, ok_bind,
          List.drop_eq_getElem_cons hmore.1, RunD.runLoop]
        by_cases hsame : bytes[offset + length] = value
        · rw [if_pos hsame, if_pos ⟨hmore.2, hsame⟩, ih (130 - (length + 1)) (by omega) rfl]
          rfl
        · rw [if_neg hsame, if_neg fun h => hsame h.2]
          rfl
      · by_cases hin : offset + length < bytes.length
        · rw [List.drop_eq_getElem_cons hin, RunD.runLoop, if_neg fun h => hmore ⟨hin, h.1⟩]
          rfl
        · rw [List.drop_eq_nil_of_le (by omega), RunD.runLoop]
          rfl

theorem repeatRunLength_eq {bytes : List UInt8} {offset : Nat} (h : offset < bytes.length) :
    repeatRunLength bytes offset = Except.ok (RunD.repeatRunLength (bytes.drop offset)) := by
  rw [repeatRunLength, runLoop_eq (List.getElem?_eq_getElem h), List.drop_eq_getElem_cons h]
  rfl

/-- The literal ends where the list function ends it. -/
theorem literalLoop_eq (bytes : List UInt8) (index length : Nat) :
    literalLoop bytes index length =
      Except.ok (index + (RunD.literalLoop length (bytes.drop index) - length),
        RunD.literalLoop length (bytes.drop index)) := by
  induction hn : 128 - length using Nat.strongRecOn generalizing index length with
  | _ n ih =>
      subst hn
      rw [literalLoop]
      split_ifs with hmore
      · rw [repeatRunLength_eq hmore.1, ok_bind, List.drop_eq_getElem_cons hmore.1,
          RunD.literalLoop, if_pos hmore.2]
        split_ifs with hrun
        · rw [Nat.sub_self]
          rfl
        · have hge := le_literalLoop (length + 1) (bytes.drop (index + 1))
          rw [ih (128 - (length + 1)) (by omega) _ _ rfl]
          congr 2
          omega
      · by_cases hin : index < bytes.length
        · rw [List.drop_eq_getElem_cons hin, RunD.literalLoop, if_neg fun h => hmore ⟨hin, h⟩,
            Nat.sub_self]
          rfl
        · rw [List.drop_eq_nil_of_le (by omega), RunD.literalLoop, Nat.sub_self]
          rfl

/-- One turn takes at least one byte, so as many turns as bytes suffice. -/
theorem encodeLoop_eq (bytes : List UInt8) {turns index : Nat} (encoded : List UInt8)
    (hturns : bytes.length - index < turns) :
    encodeLoop bytes turns index encoded =
      Except.ok (encoded ++ RunD.encodeRle (bytes.drop index)) := by
  induction turns generalizing index encoded with
  | zero => omega
  | succ turns ih =>
      rw [encodeLoop]
      split_ifs with hin
      · rw [repeatRunLength_eq hin, ok_bind, List.drop_eq_getElem_cons hin, RunD.encodeRle]
        split_ifs with hrun
        · rw [fetch_of_lt (List.getElem?_eq_getElem hin), ok_bind, ih _ (by omega),
            ← List.drop_eq_getElem_cons hin, List.drop_drop]
          simp only [List.append_assoc, List.cons_append, List.nil_append]
        · have hpos := one_le_literalLoop hrun
          have hle := literalLoop_le 0 (bytes[index] :: bytes.drop (index + 1)) (by omega)
          rw [← List.drop_eq_getElem_cons hin] at hpos hle
          rw [List.length_drop] at hle
          rw [literalLoop_eq, ok_bind, ← List.drop_eq_getElem_cons hin]
          dsimp only
          rw [sizeSub_eq hpos, ok_bind, subspan_eq (by omega), ok_bind, ih _ (by omega),
            List.drop_drop, Nat.sub_zero]
          simp only [List.append_assoc, List.cons_append, List.nil_append]
      · rw [List.drop_eq_nil_of_le (by omega), RunD.encodeRle, List.append_nil]
        rfl

/-- **The encoder over a span is the encoder over its list.** -/
theorem encodeRle_eq (bytes : List UInt8) : encodeRle bytes = Except.ok (RunD.encodeRle bytes) := by
  rw [encodeRle, encodeLoop_eq bytes [] (by omega)]
  rfl

/-! ### The walk over a list -/

/-- The walk over the list of what is left of the code, with one callback for both groups. -/
def walkGroups (outputSize : Nat) (step : σ → Nat → List UInt8 → Bool × σ) :
    List UInt8 → Nat → σ → Bool × σ
  | [], written, state => (decide (written = outputSize), state)
  | tag :: rest, written, state =>
      if tag &&& 0x80 ≠ 0 then
        match rest with
        | [] => (false, state)
        | value :: rest =>
            if (tag &&& 0x7f).toNat + 3 > outputSize - written then (false, state)
            else
              let result := step state written (List.replicate ((tag &&& 0x7f).toNat + 3) value)
              if result.1 = false then (false, result.2)
              else walkGroups outputSize step rest (written + ((tag &&& 0x7f).toNat + 3)) result.2
      else if tag.toNat + 1 > rest.length then (false, state)
      else if tag.toNat + 1 > outputSize - written then (false, state)
      else
        let result := step state written (rest.take (tag.toNat + 1))
        if result.1 = false then (false, result.2)
        else
          walkGroups outputSize step (rest.drop (tag.toNat + 1)) (written + (tag.toNat + 1)) result.2
termination_by encoded => encoded.length
decreasing_by
  · simp only [List.length_cons]
    omega
  · rw [List.length_drop, List.length_cons]
    omega

/-- The state of a walk that did not stop. -/
def going (result : Bool × σ) : Option σ := if result.1 = true then some result.2 else none

/-- It is the walk of the list model. -/
theorem going_walkGroups (outputSize : Nat) (step : σ → Nat → List UInt8 → Bool × σ)
    (encoded : List UInt8) (written : Nat) (state : σ) :
    going (walkGroups outputSize step encoded written state) =
      RunD.walkRle outputSize
        (fun state written length value =>
          going (step state written (List.replicate length value)))
        (fun state written literal => going (step state written literal))
        encoded written state := by
  induction hn : encoded.length using Nat.strongRecOn generalizing encoded written state with
  | _ n ih =>
      subst hn
      cases encoded with
      | nil =>
          rw [walkGroups, RunD.walkRle, going]
          simp only [decide_eq_true_eq]
      | cons tag rest =>
          rw [walkGroups.eq_def, RunD.walkRle.eq_def]
          dsimp only
          by_cases hrepeated : tag &&& 0x80 ≠ 0
          · rw [if_pos hrepeated, if_pos hrepeated]
            cases rest with
            | nil => rfl
            | cons value rest =>
                dsimp only
                by_cases hroom : (tag &&& 0x7f).toNat + 3 > outputSize - written
                · rw [if_pos hroom, if_pos hroom]
                  rfl
                · rw [if_neg hroom, if_neg hroom]
                  rcases step state written (List.replicate ((tag &&& 0x7f).toNat + 3) value)
                    with ⟨- | -, next⟩
                  · rfl
                  · exact ih rest.length (by simp only [List.length_cons]; omega) _ _ _ rfl
          · rw [if_neg hrepeated, if_neg hrepeated]
            by_cases hbehind : tag.toNat + 1 > rest.length
            · rw [if_pos hbehind, if_pos (Or.inl hbehind)]
              rfl
            · rw [if_neg hbehind]
              by_cases hroom : tag.toNat + 1 > outputSize - written
              · rw [if_pos hroom, if_pos (Or.inr hroom)]
                rfl
              · rw [if_neg hroom, if_neg (not_or.mpr ⟨hbehind, hroom⟩)]
                rcases step state written (rest.take (tag.toNat + 1)) with ⟨- | -, next⟩
                · rfl
                · exact ih (rest.drop (tag.toNat + 1)).length
                    (by rw [List.length_drop, List.length_cons]; omega) _ _ _ rfl

/-- The simulation: over spans a walk does what it does over the list behind the index, seen
through a view of the caller's state. -/
theorem walkRle_simulates {outputSize : Nat} {encoded : List UInt8}
    {repeats : σ → Nat → Nat → UInt8 → Checked ε (Bool × σ)}
    {literal : σ → Nat → List UInt8 → Checked ε (Bool × σ)} (P : σ → Prop) (view : σ → τ)
    (step : τ → Nat → List UInt8 → Bool × τ)
    (hrepeats : ∀ state written length value, P state → length ≤ 130 →
      written + length ≤ outputSize → ∃ next, P next ∧
        repeats state written length value =
          Except.ok ((step (view state) written (List.replicate length value)).1, next) ∧
        view next = (step (view state) written (List.replicate length value)).2)
    (hliteral : ∀ state written bytes, P state → written + bytes.length ≤ outputSize →
      ∃ next, P next ∧
        literal state written bytes = Except.ok ((step (view state) written bytes).1, next) ∧
        view next = (step (view state) written bytes).2)
    {index written : Nat} {state : σ} (hstate : P state) (hwritten : written ≤ outputSize) :
    ∃ final, P final ∧ walkRle outputSize repeats literal encoded index written state =
        Except.ok ((walkGroups outputSize step (encoded.drop index) written (view state)).1,
          final) ∧
      view final = (walkGroups outputSize step (encoded.drop index) written (view state)).2 := by
  induction hn : encoded.length - index using Nat.strongRecOn
    generalizing index written state with
  | _ n ih =>
      subst hn
      by_cases hin : index < encoded.length
      · rw [walkRle, dif_pos hin, fetch_of_lt (List.getElem?_eq_getElem hin), ok_bind,
          List.drop_eq_getElem_cons hin, walkGroups.eq_def]
        dsimp only
        generalize encoded[index] = tag
        by_cases hrepeated : tag &&& 0x80 ≠ 0
        · rw [if_pos hrepeated, if_pos hrepeated]
          by_cases hend : index + 1 ≥ encoded.length
          · rw [if_pos hend, List.drop_eq_nil_of_le hend]
            exact ⟨state, hstate, rfl, rfl⟩
          · have hnext : index + 1 < encoded.length := by omega
            rw [if_neg hend, List.drop_eq_getElem_cons hnext, sizeSub_eq hwritten, ok_bind]
            dsimp only
            by_cases hroom : (tag &&& 0x7f).toNat + 3 > outputSize - written
            · rw [if_pos hroom, if_pos hroom]
              exact ⟨state, hstate, rfl, rfl⟩
            · have hshort : (tag &&& 0x7f).toNat + 3 ≤ 130 := by
                have hand : (tag &&& 0x7f).toNat ≤ 127 := by
                  rw [UInt8.toNat_and]
                  exact Nat.and_le_right
                omega
              rw [if_neg hroom, if_neg hroom, fetch_of_lt (List.getElem?_eq_getElem hnext), ok_bind]
              obtain ⟨next, hP, hrun, hview⟩ :=
                hrepeats state written _ encoded[index + 1] hstate hshort (by omega)
              rw [hrun, ok_bind]
              dsimp only
              split_ifs with hstop
              · exact ⟨next, hP, rfl, hview⟩
              · rw [← hview]
                exact ih (encoded.length - (index + 2)) (by omega) hP (by omega) rfl
        · rw [if_neg hrepeated, if_neg hrepeated, sizeSub_eq (by omega), ok_bind,
            List.length_drop]
          by_cases hbehind : tag.toNat + 1 > encoded.length - (index + 1)
          · rw [if_pos hbehind, if_pos hbehind]
            exact ⟨state, hstate, rfl, rfl⟩
          · rw [if_neg hbehind, if_neg hbehind, sizeSub_eq hwritten, ok_bind]
            by_cases hroom : tag.toNat + 1 > outputSize - written
            · rw [if_pos hroom, if_pos hroom]
              exact ⟨state, hstate, rfl, rfl⟩
            · rw [if_neg hroom, if_neg hroom, subspan_eq (by omega), ok_bind]
              obtain ⟨next, hP, hrun, hview⟩ :=
                hliteral state written ((encoded.drop (index + 1)).take (tag.toNat + 1)) hstate
                  (by rw [List.length_take]; omega)
              rw [hrun, ok_bind]
              dsimp only
              split_ifs with hstop
              · exact ⟨next, hP, rfl, hview⟩
              · rw [← hview, List.drop_drop]
                exact ih (encoded.length - (index + 1 + (tag.toNat + 1))) (by omega) hP
                  (by omega) rfl
      · rw [walkRle, dif_neg hin, List.drop_eq_nil_of_le (by omega), walkGroups]
        exact ⟨state, hstate, rfl, rfl⟩

/-! ### What the consumers see -/

section Consumers

variable {visit : τ → List UInt8 → τ}

/-- A written stretch is what was written. -/
theorem take_drop_overwritten {xs written : List α} {offset : Nat} (h : offset ≤ xs.length) :
    ((xs.take offset ++ written ++ xs.drop (offset + written.length)).drop offset).take
      written.length = written := by
  have hlen : (xs.take offset).length = offset := List.length_take_of_le h
  rw [List.append_assoc]
  nth_rewrite 1 [← hlen]
  rw [List.drop_left, List.take_left]

theorem length_overwritten {xs written : List α} {offset : Nat}
    (h : offset + written.length ≤ xs.length) :
    (xs.take offset ++ written ++ xs.drop (offset + written.length)).length = xs.length := by
  rw [List.length_append, List.length_append, List.length_take, List.length_drop]
  omega

/-- What `DecodeRleInto` does, through any view of its output and its hashes. -/
theorem decodeRleInto_simulates {ρ : Type} {encoded output : List UInt8} (hashes : τ)
    (view : List UInt8 × τ → ρ) (step : ρ → Nat → List UInt8 → Bool × ρ)
    (hstep : ∀ (xs : List UInt8) (t : τ) (written : Nat) (piece : List UInt8),
      xs.length = output.length → written + piece.length ≤ output.length →
      step (view (xs, t)) written piece =
        (true, view (xs.take written ++ piece ++ xs.drop (written + piece.length),
          visit t piece))) :
    ∃ final, final.1.length = output.length ∧
      (decodeRleInto visit encoded output hashes : Checked ε (Bool × List UInt8 × τ)) =
        Except.ok ((walkGroups output.length step encoded 0 (view (output, hashes))).1, final) ∧
      view final = (walkGroups output.length step encoded 0 (view (output, hashes))).2 := by
  have hstart : (output, hashes).1.length = output.length := rfl
  refine walkRle_simulates (fun (state : List UInt8 × τ) => state.1.length = output.length) view
    step ?_ ?_ hstart (Nat.zero_le _)
  · rintro ⟨xs, t⟩ written length value hlen - hroom
    dsimp only at hlen
    have hfit : written + (List.replicate length value).length ≤ xs.length := by
      rw [List.length_replicate]
      omega
    have hshown := @take_drop_overwritten _ xs (List.replicate length value) written (by omega)
    have hkept := length_overwritten hfit
    rw [hstep xs t written _ hlen (by rw [List.length_replicate]; omega)]
    rw [List.length_replicate] at hshown hkept
    refine ⟨_, ?_, ?_, rfl⟩
    · rw [List.length_replicate]
      exact hkept.trans hlen
    · rw [overwrite_eq hfit, ok_bind, List.length_replicate, subspan_eq (by omega), ok_bind, hshown]
      rfl
  · rintro ⟨xs, t⟩ written bytes hlen hroom
    dsimp only at hlen
    have hfit : written + bytes.length ≤ xs.length := by omega
    rw [hstep xs t written _ hlen hroom]
    refine ⟨_, ?_, ?_, rfl⟩
    · exact (length_overwritten hfit).trans hlen
    · rw [overwrite_eq hfit, ok_bind]
      rfl

/-- `DecodeRleInto` shows its hashes what the walk over the code shows. -/
theorem decodeRleInto_visits (encoded output : List UInt8) (hashes : τ) :
    ∃ final, final.1.length = output.length ∧
      (decodeRleInto visit encoded output hashes : Checked ε (Bool × List UInt8 × τ)) =
        Except.ok ((walkGroups output.length (fun t _ piece => (true, visit t piece)) encoded 0
          hashes).1, final) ∧
      final.2 = (walkGroups output.length (fun t _ piece => (true, visit t piece)) encoded 0
        hashes).2 :=
  decodeRleInto_simulates hashes Prod.snd _ fun _ _ _ _ _ _ => rfl

/-- `WalkDecoded` shows its caller the same. -/
theorem walkDecoded_visits (uncompressedBytes : UInt64) (encoded : List UInt8) (state : τ) :
    (walkDecoded visit uncompressedBytes .rle encoded state : Checked ε (Bool × τ)) =
      Except.ok (walkGroups uncompressedBytes.toNat (fun t _ piece => (true, visit t piece)) encoded
        0 state) := by
  have hsimulates := @walkRle_simulates ε (List UInt8 × τ) τ uncompressedBytes.toNat encoded
    (fun state _ length value => do
      let repeated ← overwrite state.1 0 (List.replicate length value)
      let shown ← subspan repeated 0 length
      pure (true, repeated, visit state.2 shown))
    (fun state _ literal => pure (true, state.1, visit state.2 literal))
    (fun (state : List UInt8 × τ) => state.1.length = 130) Prod.snd
    (fun t _ piece => (true, visit t piece))
    (by
      rintro ⟨repeated, t⟩ written length value hlen hshort -
      dsimp only at hlen
      have hfit : 0 + (List.replicate length value).length ≤ repeated.length := by
        rw [List.length_replicate]
        omega
      have hshown := @take_drop_overwritten _ repeated (List.replicate length value) 0
        (Nat.zero_le _)
      have hkept := length_overwritten hfit
      rw [List.length_replicate] at hshown hkept
      refine ⟨(repeated.take 0 ++ List.replicate length value ++ repeated.drop (0 + length),
        visit t (List.replicate length value)), ?_, ?_, rfl⟩
      · exact hkept.trans hlen
      · rw [overwrite_eq hfit, ok_bind, List.length_replicate, subspan_eq (by omega), ok_bind,
          hshown]
        rfl)
    (by
      rintro ⟨repeated, t⟩ written bytes hlen -
      exact ⟨(repeated, visit t bytes), hlen, rfl, rfl⟩)
    0 0 (List.replicate 130 0, state) List.length_replicate (Nat.zero_le _)
  obtain ⟨final, -, hrun, hview⟩ := hsimulates
  show (_ >>= _) = _
  rw [hrun, ok_bind]
  show Except.ok (_, final.2) = _
  rw [hview]
  rfl

/-- Pieces that go over a buffer from its beginning on fill it with the code's content. -/
theorem walkPieces_overwrite {pieces : List (List UInt8)} {output : List UInt8} {written : Nat}
    (hsize : written + pieces.flatten.length = output.length) :
    walkPieces
        (fun (xs : List UInt8) written piece =>
          some (xs.take written ++ piece ++ xs.drop (written + piece.length)))
        pieces written output =
      some (output.take written ++ pieces.flatten) := by
  induction pieces generalizing output written with
  | nil =>
      rw [List.flatten_nil, List.length_nil] at hsize
      rw [walkPieces, List.flatten_nil, List.append_nil, List.take_of_length_le (by omega)]
  | cons piece pieces ih =>
      rw [List.flatten_cons, List.length_append] at hsize
      have hkept := @length_overwritten _ output piece written (by omega)
      rw [walkPieces]
      dsimp only
      rw [ih (by omega), List.flatten_cons, ← List.append_assoc]
      congr 2
      have hlen : (output.take written ++ piece).length = written + piece.length := by
        rw [List.length_append, List.length_take]
        omega
      rw [← hlen, List.take_left]

/-- **`DecodeRle` succeeds on the codes of as many bytes as expected**, and with these bytes. -/
theorem decodeRle_spec (encoded : List UInt8) (expected : UInt64) :
    ∃ decoded, (decodeRle encoded expected : Checked ε (Option (List UInt8))) =
        Except.ok decoded ∧
      ∀ content : List UInt8, decoded = some content ↔
        content.length = expected.toNat ∧
          ∃ pieces, RleCode encoded pieces ∧ pieces.flatten = content := by
  let write := fun (xs : List UInt8) (written : Nat) (piece : List UInt8) =>
    (true, xs.take written ++ piece ++ xs.drop (written + piece.length))
  have hstart : (List.replicate expected.toNat (0 : UInt8)).length = expected.toNat :=
    List.length_replicate
  obtain ⟨⟨output, hashes⟩, hlen, hrun, hview⟩ := @decodeRleInto_simulates ε Unit
    (fun _ _ => ()) (List UInt8) encoded (List.replicate expected.toNat 0) () Prod.fst write
    (fun _ _ _ _ _ _ => rfl)
  have hwalk := going_walkGroups expected.toNat write encoded 0 (List.replicate expected.toNat 0)
  rw [hstart] at hrun hview
  -- the walk of the list model over a code fills the buffer with its content
  have hfills : ∀ {pieces : List (List UInt8)}, RleCode encoded pieces →
      pieces.flatten.length = expected.toNat →
      going (walkGroups expected.toNat write encoded 0 (List.replicate expected.toNat 0)) =
        some pieces.flatten := by
    intro pieces hcode hsize
    rw [hwalk]
    have hpieces := @walkPieces_overwrite pieces (List.replicate expected.toNat 0) 0 (by omega)
    exact (walkRle_eq hcode (fun _ _ _ _ _ => rfl) _ (by omega)).trans hpieces
  refine ⟨going (walkGroups expected.toNat write encoded 0 (List.replicate expected.toNat 0)),
    ?_, ?_⟩
  · rw [decodeRle, hrun, ok_bind]
    dsimp only at hview ⊢
    rw [going, hview]
    cases (walkGroups expected.toNat write encoded 0 (List.replicate expected.toNat 0)).1 with
    | false => rfl
    | true => rfl
  · intro content
    constructor
    · intro hsome
      obtain ⟨pieces, hcode, hsize⟩ := rleCode_of_walkRle (hwalk.symm.trans hsome)
      rw [Nat.zero_add] at hsize
      rw [hfills hcode hsize, Option.some_inj] at hsome
      exact ⟨hsome ▸ hsize, pieces, hcode, hsome⟩
    · rintro ⟨hsize, pieces, hcode, rfl⟩
      exact hfills hcode hsize

/-- Comparing goes through exactly when the bytes follow. -/
theorem walkPieces_compare_iff {expected : List UInt8} {pieces : List (List UInt8)} {written : Nat}
    (hsize : written + pieces.flatten.length = expected.length) :
    walkPieces (fun (_ : Unit) offset literal =>
        if (expected.drop offset).take literal.length = literal then some () else none)
      pieces written () = some () ↔ expected.drop written = pieces.flatten := by
  induction pieces generalizing written with
  | nil =>
      rw [List.flatten_nil, List.length_nil] at hsize
      rw [walkPieces, List.flatten_nil, List.drop_eq_nil_of_le (by omega)]
      simp only
  | cons piece pieces ih =>
      rw [List.flatten_cons, List.length_append] at hsize
      have hsplit := List.take_append_drop piece.length (expected.drop written)
      rw [walkPieces, List.flatten_cons]
      by_cases hpiece : (expected.drop written).take piece.length = piece
      · rw [if_pos hpiece]
        dsimp only
        rw [ih (by omega), ← hsplit, hpiece, List.append_cancel_left_eq, List.drop_drop]
      · rw [if_neg hpiece]
        constructor
        · intro hnone
          cases hnone
        · intro hall
          rw [hall, List.take_left] at hpiece
          exact absurd rfl hpiece

/-- **`RleMatches` holds for the codes of what is expected.** -/
theorem rleMatches_spec (encoded expected : List UInt8) :
    ∃ answer, (rleMatches encoded expected : Checked ε Bool) = Except.ok answer ∧
      (answer = true ↔ ∃ pieces, RleCode encoded pieces ∧ pieces.flatten = expected) := by
  let compare := fun (_ : Unit) (offset : Nat) (piece : List UInt8) =>
    ((expected.drop offset).take piece.length == piece, ())
  have hsimulates := @walkRle_simulates ε Unit Unit expected.length encoded
    (fun _ offset length value => do
      let stretch ← subspan expected offset length
      pure (stretch.all (· == value), ()))
    (fun _ offset literal => do
      let stretch ← subspan expected offset literal.length
      pure (stretch == literal, ()))
    (fun _ => True) id compare
    (by
      intro _ written length value _ _ hroom
      refine ⟨(), trivial, ?_, rfl⟩
      have hlen : ((expected.drop written).take length).length = length := by
        rw [List.length_take, List.length_drop]
        omega
      have hsame : ((expected.drop written).take length).all (· == value) =
          ((expected.drop written).take length == List.replicate length value) := by
        rw [Bool.eq_iff_iff, all_beq_iff, hlen, beq_iff_eq]
      rw [subspan_eq hroom, ok_bind, hsame]
      dsimp only [compare]
      rw [List.length_replicate]
      rfl)
    (by
      intro _ written bytes _ hroom
      refine ⟨(), trivial, ?_, rfl⟩
      rw [subspan_eq hroom, ok_bind]
      rfl)
    0 0 () trivial (Nat.zero_le _)
  obtain ⟨final, -, hrun, -⟩ := hsimulates
  have hwalk := going_walkGroups expected.length compare encoded 0 ()
  have hcompare : ∀ (state : Unit) (written : Nat) (piece : List UInt8),
      going (compare state written piece) =
        if (expected.drop written).take piece.length = piece then some () else none := by
    intro state written piece
    simp only [going, compare, beq_iff_eq]
  simp only [hcompare] at hwalk
  refine ⟨(walkGroups expected.length compare encoded 0 ()).1, ?_, ?_⟩
  · rw [rleMatches, hrun, ok_bind]
    rfl
  · have hgoing : (walkGroups expected.length compare encoded 0 ()).1 = true ↔
        going (walkGroups expected.length compare encoded 0 ()) = some () := by
      rw [going]
      split_ifs with hanswer
      · exact ⟨fun _ => rfl, fun _ => hanswer⟩
      · exact ⟨fun h => absurd h hanswer, fun h => nomatch h⟩
    rw [hgoing, hwalk]
    constructor
    · intro hsome
      obtain ⟨pieces, hcode, hsize⟩ := rleCode_of_walkRle hsome
      rw [walkRle_eq hcode (fun _ _ _ _ _ => by rfl) _ hsize, walkPieces_compare_iff hsize,
        List.drop_zero] at hsome
      exact ⟨pieces, hcode, hsome.symm⟩
    · rintro ⟨pieces, hcode, rfl⟩
      rw [walkRle_eq hcode (fun _ _ _ _ _ => by rfl) _ (Nat.zero_add _),
        walkPieces_compare_iff (Nat.zero_add _), List.drop_zero]

end Consumers

/-! ### The codec -/

/-- **The chunk codec.**  What is encoded decodes to what it was.  For any bytes taken as a code,
comparing holds exactly when decoding gives what is expected; the decoder shows the hashes the
bytes that the walk shows its caller, in the same order and up to the same place; and nothing
writes beyond the output or reads beyond the code, whatever the output's size. -/
theorem rle_chunk_codec (bytes encoded : ByteString) :
    (∃ code, encodeRle bytes.bytes = Except.ok code ∧
      (decodeRle code bytes.size : Checked Unit _) = Except.ok (some bytes.bytes)) ∧
    (∃ answer, (rleMatches encoded.bytes bytes.bytes : Checked Unit Bool) = Except.ok answer ∧
      (answer = true ↔
        (decodeRle encoded.bytes bytes.size : Checked Unit _) = Except.ok (some bytes.bytes))) ∧
    (∀ expected, ∃ decoded,
      (decodeRle encoded.bytes expected : Checked Unit _) = Except.ok decoded) ∧
    ∀ (τ : Type) (visit : τ → List UInt8 → τ) (hashes : τ) (output : ByteString),
      ∃ answer output' hashes',
        (decodeRleInto visit encoded.bytes output.bytes hashes : Checked Unit _) =
          Except.ok (answer, output', hashes') ∧
        output'.length = output.bytes.length ∧
        (walkDecoded visit output.size .rle encoded.bytes hashes : Checked Unit _) =
          Except.ok (answer, hashes') := by
  refine ⟨?_, ?_, ?_, ?_⟩
  · obtain ⟨pieces, hcode, hflat⟩ := rleCode_encodeRle bytes.bytes
    obtain ⟨decoded, hrun, hdecoded⟩ :=
      decodeRle_spec (ε := Unit) (RunD.encodeRle bytes.bytes) bytes.size
    refine ⟨_, encodeRle_eq bytes.bytes, ?_⟩
    rw [hrun, (hdecoded bytes.bytes).mpr ⟨bytes.toNat_size.symm, pieces, hcode, hflat⟩]
  · obtain ⟨answer, hanswer, hmatches⟩ :=
      rleMatches_spec (ε := Unit) encoded.bytes bytes.bytes
    obtain ⟨decoded, hrun, hdecoded⟩ := decodeRle_spec (ε := Unit) encoded.bytes bytes.size
    refine ⟨answer, hanswer, ?_⟩
    rw [hmatches, hrun, Except.ok.injEq, hdecoded]
    exact ⟨fun h => ⟨bytes.toNat_size.symm, h⟩, And.right⟩
  · intro expected
    obtain ⟨decoded, hrun, -⟩ := decodeRle_spec (ε := Unit) encoded.bytes expected
    exact ⟨decoded, hrun⟩
  · intro τ visit hashes output
    obtain ⟨⟨output', hashes'⟩, hlen, hrun, hview⟩ :=
      @decodeRleInto_visits Unit τ visit encoded.bytes output.bytes hashes
    refine ⟨_, output', hashes', hrun, hlen, ?_⟩
    rw [walkDecoded_visits, output.toNat_size]
    dsimp only at hview
    rw [hview]

end Rle

end RunD
