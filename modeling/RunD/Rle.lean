/-
The run-length code of a payload chunk.

A code is a sequence of groups.  A tag with its upper bit set repeats the byte
behind it 3 to 130 times, another tag announces 1 to 128 bytes that stand
behind it.  `RleCode encoded pieces` says that a byte string is such a code
and which pieces it expands to.  The walk over a code goes through exactly
these pieces (`walkRle_eq`), so what a caller does with them is a loop over
the pieces, and the encoder writes a code of the bytes it was given
(`rleCode_encodeRle`).
-/
import RunD.ReplayHash

namespace RunD

/-! ### The code of the source -/

/-- The loop of `RepeatRunLength` behind the first byte. -/
def runLoop (value : UInt8) : Nat → List UInt8 → Nat
  | length, [] => length
  | length, byte :: rest =>
      if length < 130 ∧ byte = value then runLoop value (length + 1) rest else length

/-- `RepeatRunLength`, of the bytes from the offset on. -/
def repeatRunLength : List UInt8 → Nat
  | [] => 1
  | value :: rest => runLoop value 1 rest

/-- The inner loop of `EncodeRle`: how many bytes the literal takes. -/
def literalLoop : Nat → List UInt8 → Nat
  | length, [] => length
  | length, value :: rest =>
      if length < 128 then
        if repeatRunLength (value :: rest) ≥ 3 then length else literalLoop (length + 1) rest
      else length

theorem le_runLoop (value : UInt8) (length : Nat) (rest : List UInt8) :
    length ≤ runLoop value length rest := by
  induction rest generalizing length with
  | nil => exact Nat.le_refl _
  | cons byte rest ih =>
      rw [runLoop]
      split
      · exact Nat.le_trans (Nat.le_succ _) (ih (length + 1))
      · exact Nat.le_refl _

theorem le_literalLoop (length : Nat) (rest : List UInt8) : length ≤ literalLoop length rest := by
  induction rest generalizing length with
  | nil => exact Nat.le_refl _
  | cons value rest ih =>
      rw [literalLoop]
      split
      · split
        · exact Nat.le_refl _
        · exact Nat.le_trans (Nat.le_succ _) (ih (length + 1))
      · exact Nat.le_refl _

/-- A literal that begins where no run does takes at least one byte. -/
theorem one_le_literalLoop {value : UInt8} {rest : List UInt8}
    (h : ¬ repeatRunLength (value :: rest) ≥ 3) : 1 ≤ literalLoop 0 (value :: rest) := by
  rw [literalLoop, if_pos (by omega), if_neg h]
  exact le_literalLoop 1 rest

/-- `EncodeRle`. -/
def encodeRle : List UInt8 → List UInt8
  | [] => []
  | value :: rest =>
      if _hrun : repeatRunLength (value :: rest) ≥ 3 then
        (0x80 ||| UInt8.ofNat (repeatRunLength (value :: rest) - 3)) :: value ::
          encodeRle ((value :: rest).drop (repeatRunLength (value :: rest)))
      else
        UInt8.ofNat (literalLoop 0 (value :: rest) - 1) ::
          ((value :: rest).take (literalLoop 0 (value :: rest)) ++
            encodeRle ((value :: rest).drop (literalLoop 0 (value :: rest))))
termination_by bytes => bytes.length
decreasing_by
  · rw [List.length_drop, List.length_cons]
    omega
  · have h := one_le_literalLoop _hrun
    rw [List.length_drop, List.length_cons]
    omega

section Walk

variable {σ : Type}

/-- `WalkRle` from `written` bytes of output on; the callbacks carry a state, and `none` stands
for a walk or a callback that returns false. -/
def walkRle (outputSize : Nat) (repeats : σ → Nat → Nat → UInt8 → Option σ)
    (literal : σ → Nat → List UInt8 → Option σ) : List UInt8 → Nat → σ → Option σ
  | [], written, state => if written = outputSize then some state else none
  | tag :: rest, written, state =>
      if tag &&& 0x80 ≠ 0 then
        match rest with
        | [] => none
        | value :: rest =>
            if (tag &&& 0x7f).toNat + 3 > outputSize - written then none
            else
              match repeats state written ((tag &&& 0x7f).toNat + 3) value with
              | none => none
              | some state =>
                  walkRle outputSize repeats literal rest
                    (written + ((tag &&& 0x7f).toNat + 3)) state
      else if tag.toNat + 1 > rest.length ∨ tag.toNat + 1 > outputSize - written then none
      else
        match literal state written (rest.take (tag.toNat + 1)) with
        | none => none
        | some state =>
            walkRle outputSize repeats literal (rest.drop (tag.toNat + 1))
              (written + (tag.toNat + 1)) state
termination_by encoded => encoded.length
decreasing_by
  · simp only [List.length_cons]
    omega
  · rw [List.length_drop, List.length_cons]
    omega

end Walk

/-! ### What a walk goes through -/

/-- `encoded` is a sequence of groups that expand to `pieces`. -/
inductive RleCode : List UInt8 → List (List UInt8) → Prop
  | nil : RleCode [] []
  | run {rest : List UInt8} {pieces : List (List UInt8)} (tag value : UInt8)
      (repeated : tag &&& 0x80 ≠ 0) (code : RleCode rest pieces) :
      RleCode (tag :: value :: rest)
        (List.replicate ((tag &&& 0x7f).toNat + 3) value :: pieces)
  | literal {rest : List UInt8} {pieces : List (List UInt8)} (tag : UInt8) (bytes : List UInt8)
      (announced : ¬ tag &&& 0x80 ≠ 0) (length : bytes.length = tag.toNat + 1)
      (code : RleCode rest pieces) :
      RleCode (tag :: (bytes ++ rest)) (bytes :: pieces)

section Walk

variable {σ : Type} {repeats : σ → Nat → Nat → UInt8 → Option σ}
  {literal : σ → Nat → List UInt8 → Option σ} {outputSize written : Nat}

/-- A loop over pieces that a step may leave. -/
def walkPieces (step : σ → Nat → List UInt8 → Option σ) :
    List (List UInt8) → Nat → σ → Option σ
  | [], _, state => some state
  | piece :: pieces, written, state =>
      match step state written piece with
      | none => none
      | some state => walkPieces step pieces (written + piece.length) state

/-- **A walk over a code is a loop over its pieces**, for an output of their size. -/
theorem walkRle_eq {encoded : List UInt8} {pieces : List (List UInt8)}
    (hcode : RleCode encoded pieces)
    (hrepeats : ∀ state written length value, written + length ≤ outputSize →
      repeats state written length value = literal state written (List.replicate length value))
    (state : σ) (hsize : written + pieces.flatten.length = outputSize) :
    walkRle outputSize repeats literal encoded written state =
      walkPieces literal pieces written state := by
  induction hcode generalizing written state with
  | nil =>
      rw [walkRle, if_pos (by simpa using hsize)]
      rfl
  | run tag value repeated code ih =>
      rw [List.flatten_cons, List.length_append, List.length_replicate] at hsize
      rw [walkRle, if_pos repeated, if_neg (by omega), hrepeats _ _ _ _ (by omega), walkPieces]
      cases literal state written (List.replicate ((tag &&& 0x7f).toNat + 3) value) with
      | none => rfl
      | some next =>
          rw [List.length_replicate]
          exact ih next (by omega)
  | literal tag bytes announced length code ih =>
      rw [List.flatten_cons, List.length_append] at hsize
      rw [walkRle.eq_def]
      dsimp only
      rw [if_neg announced, if_neg (by rw [List.length_append]; omega), ← length,
        List.take_left, List.drop_left, walkPieces]
      cases literal state written bytes with
      | none => rfl
      | some next => exact ih next (by omega)

/-- A walk that comes to its end went over a code of as many bytes as the output takes. -/
theorem rleCode_of_walkRle {encoded : List UInt8} {state final : σ}
    (h : walkRle outputSize repeats literal encoded written state = some final) :
    ∃ pieces, RleCode encoded pieces ∧ written + pieces.flatten.length = outputSize := by
  induction hn : encoded.length using Nat.strongRecOn
    generalizing encoded written state with
  | _ n ih =>
      subst hn
      cases encoded with
      | nil =>
          rw [walkRle] at h
          split at h
          · exact ⟨[], .nil, by simpa⟩
          · cases h
      | cons tag rest =>
          rw [walkRle.eq_def] at h
          dsimp only at h
          split at h
          · rename_i repeated
            cases rest with
            | nil => cases h
            | cons value rest =>
                dsimp only at h
                split at h
                · cases h
                · split at h
                  · cases h
                  · obtain ⟨pieces, hcode, hsize⟩ := ih rest.length
                      (by simp only [List.length_cons]; omega) h rfl
                    refine ⟨_, .run tag value repeated hcode, ?_⟩
                    rw [List.flatten_cons, List.length_append, List.length_replicate]
                    omega
          · rename_i announced
            split at h
            · cases h
            · rename_i hroom
              split at h
              · cases h
              · obtain ⟨pieces, hcode, hsize⟩ := ih (rest.drop (tag.toNat + 1)).length
                  (by simp only [List.length_drop, List.length_cons]; omega) h rfl
                have hlen : (rest.take (tag.toNat + 1)).length = tag.toNat + 1 := by
                  rw [List.length_take]
                  omega
                have hjoined := RleCode.literal tag _ announced hlen hcode
                rw [List.take_append_drop] at hjoined
                refine ⟨_, hjoined, ?_⟩
                rw [List.flatten_cons, List.length_append, hlen]
                omega

end Walk

/-! ### The encoder writes a code -/

/-- A run loop goes over copies of its value, at most 130 with those before it. -/
theorem runLoop_spec (value : UInt8) (length : Nat) (rest : List UInt8) (h : length ≤ 130) :
    runLoop value length rest ≤ 130 ∧
      ∃ tail, rest = List.replicate (runLoop value length rest - length) value ++ tail := by
  induction rest generalizing length with
  | nil =>
      rw [runLoop]
      exact ⟨h, [], by simp⟩
  | cons byte rest ih =>
      rw [runLoop]
      split
      · rename_i hmore
        obtain ⟨hle, tail, htail⟩ := ih (length + 1) (by omega)
        have hge := le_runLoop value (length + 1) rest
        refine ⟨hle, tail, ?_⟩
        rw [show runLoop value (length + 1) rest - length =
          runLoop value (length + 1) rest - (length + 1) + 1 by omega, List.replicate_succ,
          List.cons_append, ← htail, hmore.2]
      · exact ⟨h, byte :: rest, by simp⟩

theorem repeatRunLength_spec (value : UInt8) (rest : List UInt8) :
    repeatRunLength (value :: rest) ≤ 130 ∧
      ∃ tail, value :: rest =
        List.replicate (repeatRunLength (value :: rest)) value ++ tail := by
  obtain ⟨hle, tail, htail⟩ := runLoop_spec value 1 rest (by omega)
  have hge := le_runLoop value 1 rest
  refine ⟨hle, tail, ?_⟩
  show value :: rest = List.replicate (runLoop value 1 rest) value ++ tail
  rw [show runLoop value 1 rest = runLoop value 1 rest - 1 + 1 by omega, List.replicate_succ,
    List.cons_append, ← htail]

theorem literalLoop_le (length : Nat) (rest : List UInt8) (h : length ≤ 128) :
    literalLoop length rest ≤ 128 ∧ literalLoop length rest ≤ length + rest.length := by
  induction rest generalizing length with
  | nil => exact ⟨h, Nat.le_refl _⟩
  | cons value rest ih =>
      rw [literalLoop]
      split
      · split
        · exact ⟨h, by simp⟩
        · have hnext := ih (length + 1) (by omega)
          rw [List.length_cons]
          omega
      · exact ⟨h, by simp⟩

theorem runTag_spec {k : Nat} (h : k ≤ 127) :
    (0x80 ||| UInt8.ofNat k) &&& 0x80 ≠ 0 ∧ ((0x80 ||| UInt8.ofNat k) &&& 0x7f).toNat = k := by
  have hall : ∀ k : Fin 128, (0x80 ||| UInt8.ofNat k.val) &&& 0x80 ≠ 0 ∧
      ((0x80 ||| UInt8.ofNat k.val) &&& 0x7f).toNat = k.val := by decide
  exact hall ⟨k, by omega⟩

theorem literalTag_spec {k : Nat} (h : k ≤ 127) :
    ¬ UInt8.ofNat k &&& 0x80 ≠ 0 ∧ (UInt8.ofNat k).toNat = k := by
  have hall : ∀ k : Fin 128, ¬ UInt8.ofNat k.val &&& 0x80 ≠ 0 ∧ (UInt8.ofNat k.val).toNat = k.val := by
    decide
  exact hall ⟨k, by omega⟩

/-- **The encoder writes a code of what it was given.** -/
theorem rleCode_encodeRle (bytes : List UInt8) :
    ∃ pieces, RleCode (encodeRle bytes) pieces ∧ pieces.flatten = bytes := by
  induction hn : bytes.length using Nat.strongRecOn generalizing bytes with
  | _ n ih =>
      subst hn
      cases bytes with
      | nil => exact ⟨[], by rw [encodeRle]; exact .nil, rfl⟩
      | cons value rest =>
          rw [encodeRle]
          split
          · rename_i hrun
            obtain ⟨hle, tail, htail⟩ := repeatRunLength_spec value rest
            -- what stands behind the run is encoded next
            have hdrop : (value :: rest).drop (repeatRunLength (value :: rest)) = tail := by
              nth_rewrite 2 [htail]
              rw [List.drop_append_of_le_length (by simp), List.drop_replicate, Nat.sub_self]
              rfl
            have hlt : tail.length < (value :: rest).length := by
              rw [htail, List.length_append, List.length_replicate]
              omega
            obtain ⟨pieces, hcode, hflat⟩ := ih tail.length hlt tail rfl
            obtain ⟨hbit, hcount⟩ := runTag_spec
              (show repeatRunLength (value :: rest) - 3 ≤ 127 by omega)
            rw [hdrop]
            refine ⟨_, .run _ value hbit hcode, ?_⟩
            rw [List.flatten_cons, hflat, hcount, Nat.sub_add_cancel hrun]
            exact htail.symm
          · rename_i hrun
            have hpos := one_le_literalLoop hrun
            obtain ⟨hle, hshort⟩ := literalLoop_le 0 (value :: rest) (by omega)
            obtain ⟨pieces, hcode, hflat⟩ := ih
              ((value :: rest).drop (literalLoop 0 (value :: rest))).length
              (by rw [List.length_drop, List.length_cons]; omega) _ rfl
            obtain ⟨hbit, hcount⟩ := literalTag_spec
              (show literalLoop 0 (value :: rest) - 1 ≤ 127 by omega)
            refine ⟨_, .literal _ _ hbit ?_ hcode, ?_⟩
            · rw [List.length_take, hcount]
              omega
            · rw [List.flatten_cons, hflat, List.take_append_drop]

end RunD
