/-
Lists whose items are spelled relative to the ones before them, and fields
that are spelled only when a bit says so.

`Running` is a spelling of single items with a state that runs along.  A
writer that writes each item that way writes the list that way, and so for a
reader in both directions; the rules below say it once for every list of an
artifact.
-/
import RunD.ArtifactWriter

namespace RunD

variable {ε α β σ : Type}

/-! ### Presence bits -/

/-- `1u << bit`. -/
def fieldBit (bit : Nat) : UInt16 := UInt16.ofNat (2 ^ bit)

/-- A field's bit, set when the field is present. -/
def flag (present : Bool) (field : UInt16) : UInt16 := if present then field else 0

/-- `(fields & field) != 0u`. -/
def hasFlag (fields field : UInt16) : Bool := (fields &&& field) != 0

theorem hasFlag_or (a b field : UInt16) :
    hasFlag (a ||| b) field = (hasFlag a field || hasFlag b field) := by
  have hsplit : (a ||| b) &&& field = (a &&& field) ||| (b &&& field) := by
    rw [← UInt16.toNat_inj]
    simp only [UInt16.toNat_and, UInt16.toNat_or]
    exact Nat.and_or_distrib_right _ _ _
  have hzero : (a &&& field) ||| (b &&& field) = 0 ↔ a &&& field = 0 ∧ b &&& field = 0 :=
    UInt16.or_eq_zero_iff
  rw [Bool.eq_iff_iff, Bool.or_eq_true, hasFlag, hasFlag, hasFlag, bne_iff_ne, bne_iff_ne,
    bne_iff_ne, hsplit, ne_eq, hzero]
  tauto

theorem toNat_fieldBit {bit : Nat} (h : bit < 16) : (fieldBit bit).toNat = 2 ^ bit := by
  rw [fieldBit, UInt16.toNat_ofNat']
  exact Nat.mod_eq_of_lt (Nat.pow_lt_pow_right (by decide) h)

theorem toNat_and_fieldBit (fields : UInt16) {bit : Nat} (h : bit < 16) :
    (fields &&& fieldBit bit).toNat = (fields.toNat.testBit bit).toNat * 2 ^ bit := by
  rw [UInt16.toNat_and, toNat_fieldBit h, Nat.and_two_pow]

theorem hasFlag_fieldBit (fields : UInt16) {bit : Nat} (h : bit < 16) :
    hasFlag fields (fieldBit bit) = fields.toNat.testBit bit := by
  have hpow := Nat.two_pow_pos bit
  have hand := toNat_and_fieldBit fields h
  rw [Bool.eq_iff_iff, hasFlag, bne_iff_ne, ne_eq, ← UInt16.toNat_inj, hand, UInt16.toNat_zero]
  rcases fields.toNat.testBit bit with - | -
  · simp
  · simp

/-- The bit of one field says nothing about another. -/
theorem hasFlag_flag (present : Bool) {bit other : Nat} (h : bit < 16) (h' : other < 16) :
    hasFlag (flag present (fieldBit bit)) (fieldBit other) =
      (present && decide (bit = other)) := by
  rw [hasFlag_fieldBit _ h', flag]
  rcases present with - | -
  · simp
  · rw [if_pos rfl, toNat_fieldBit h, Nat.testBit_two_pow, Bool.true_and]

theorem flag_lt (present : Bool) {bit n : Nat} (h : bit < n) (hn : n ≤ 16) :
    (flag present (fieldBit bit)).toNat < 2 ^ n := by
  rcases present with - | -
  · exact Nat.two_pow_pos n
  · rw [flag, if_pos rfl, toNat_fieldBit (by omega)]
    exact Nat.pow_lt_pow_right (by decide) h

theorem or_lt {a b : UInt16} {n : Nat} (ha : a.toNat < 2 ^ n) (hb : b.toNat < 2 ^ n) :
    (a ||| b).toNat < 2 ^ n := by
  rw [UInt16.toNat_or]
  exact Nat.or_lt_two_pow ha hb

/-- Words of `n` bits are told apart by their bits. -/
theorem eq_of_hasFlag {a b : UInt16} {n : Nat} (hn : n ≤ 16) (ha : a.toNat < 2 ^ n)
    (hb : b.toNat < 2 ^ n)
    (h : ∀ bit < n, hasFlag a (fieldBit bit) = hasFlag b (fieldBit bit)) : a = b := by
  rw [← UInt16.toNat_inj]
  refine Nat.eq_of_testBit_eq fun bit => ?_
  by_cases hbit : bit < n
  · rw [← hasFlag_fieldBit a (by omega), ← hasFlag_fieldBit b (by omega)]
    exact h bit hbit
  · have hpow : 2 ^ n ≤ 2 ^ bit := Nat.pow_le_pow_right (by decide) (by omega)
    rw [Nat.testBit_lt_two_pow (ha.trans_le hpow), Nat.testBit_lt_two_pow (hb.trans_le hpow)]

/-! ### What is there only sometimes -/

/-- A value that is read only under a condition. -/
def Reading.readIf (condition : Bool) (p : Reading ε α) (absent : α) : Reading ε α :=
  if condition then p else pure absent

theorem reads_readIf {condition : Bool} {p : Reading ε α} {absent a : α} {code : List UInt8}
    (hp : condition = true → Reads p code a) (habsent : condition = false → a = absent) :
    Reads (Reading.readIf condition p absent) (if condition then code else []) a := by
  rcases condition with - | -
  · rw [habsent rfl]
    exact reads_pure absent
  · exact hp rfl

theorem consumes_readIf {condition : Bool} {p : Reading ε α} {absent : α}
    {spell : α → List UInt8} (hp : Consumes p fun a code => code = spell a) :
    Consumes (Reading.readIf condition p absent) fun a code =>
      code = (if condition then spell a else []) ∧ (condition = false → a = absent) := by
  rcases condition with - | -
  · exact consumes_pure ⟨rfl, fun _ => rfl⟩
  · exact hp.mono fun a code h => ⟨h, fun hfalse => absurd hfalse (by decide)⟩

theorem safelyReads_readIf {condition : Bool} {p : Reading ε α} {absent : α}
    (hp : SafelyReads p fun _ => True) :
    SafelyReads (Reading.readIf condition p absent) fun _ => True := by
  rcases condition with - | -
  · exact safelyReads_pure trivial
  · exact hp

/-! ### Lists with a running state -/

/-- How an item is spelled, and the state behind it. -/
structure Running (σ α : Type) where
  encode : σ → α → List UInt8
  next : σ → α → σ

namespace Running

variable (F : Running σ α)

def encodeAll : σ → List α → List UInt8
  | _, [] => []
  | s, a :: as => F.encode s a ++ encodeAll (F.next s a) as

/-- The state behind a list. -/
def last : σ → List α → σ
  | s, [] => s
  | s, a :: as => last (F.next s a) as

/-- `P` holds of every item, in the state it is met in. -/
def Along (P : σ → α → Prop) : σ → List α → Prop
  | _, [] => True
  | s, a :: as => P s a ∧ Along P (F.next s a) as

end Running

/-- Items read one after the other. -/
def Reading.collect (step : σ → Reading ε (α × σ)) : Nat → σ → Reading ε (List α × σ)
  | 0, s => pure ([], s)
  | n + 1, s => do
      let (a, s) ← step s
      let (as, s) ← collect step n s
      pure (a :: as, s)

/-- Items written one after the other. -/
def Writing.each (step : σ → α → Writing σ) : σ → List α → Writing σ
  | s, [] => pure s
  | s, a :: as => do
      let s ← step s a
      each step s as

section Rules

variable {F : Running σ α} {P : σ → α → Prop}

theorem reads_collect {step : σ → Reading ε (α × σ)}
    (hstep : ∀ s a, P s a → Reads (step s) (F.encode s a) (a, F.next s a)) {s : σ} {as : List α}
    (h : F.Along P s as) :
    Reads (Reading.collect step as.length s) (F.encodeAll s as) (as, F.last s as) := by
  induction as generalizing s with
  | nil => exact reads_pure _
  | cons a as ih =>
      refine (hstep s a h.1).bind ?_
      rw [← List.append_nil (F.encodeAll _ as)]
      exact (ih h.2).bind (reads_pure _)

/-- The state a list is read in keeps an invariant `I`. -/
theorem consumes_collect {step : σ → Reading ε (α × σ)} {I : σ → Prop}
    (hstep : ∀ s, I s → Consumes (step s) fun x code =>
      P s x.1 ∧ I (F.next s x.1) ∧ x.2 = F.next s x.1 ∧ code = F.encode s x.1) (n : Nat) {s : σ}
    (hs : I s) :
    Consumes (Reading.collect step n s) fun x code =>
      x.1.length = n ∧ F.Along P s x.1 ∧ x.2 = F.last s x.1 ∧ code = F.encodeAll s x.1 := by
  induction n generalizing s with
  | zero => exact consumes_pure ⟨rfl, trivial, rfl, rfl⟩
  | succ n ih =>
      refine (hstep s hs).bind ?_
      rintro ⟨a, s'⟩ c₁ ⟨hp, hi, hs', hc₁⟩
      dsimp only at hp hi hs' hc₁ ⊢
      rw [hs']
      refine (ih hi).bind ?_
      rintro ⟨as, s''⟩ c₂ ⟨hlen, halong, hs'', hc₂⟩
      dsimp only at hlen halong hs'' hc₂ ⊢
      refine consumes_pure ⟨by rw [List.length_cons, hlen], ⟨hp, halong⟩, hs'', ?_⟩
      rw [hc₁, hc₂, List.append_nil]
      rfl

theorem safelyReads_collect {step : σ → Reading ε (α × σ)} {I : σ → Prop}
    (hstep : ∀ s, I s → SafelyReads (step s) fun x => I x.2) (n : Nat) {s : σ} (hs : I s) :
    SafelyReads (Reading.collect step n s) fun x => I x.2 := by
  induction n generalizing s with
  | zero => exact safelyReads_pure hs
  | succ n ih =>
      refine (hstep s hs).bind fun x hx => ?_
      exact (ih hx).bind fun y hy => safelyReads_pure hy

theorem puts_each {step : σ → α → Writing σ}
    (hstep : ∀ s a, P s a → Puts (step s a) (F.encode s a) (F.next s a)) {s : σ} {as : List α}
    (h : F.Along P s as) : Puts (Writing.each step s as) (F.encodeAll s as) (F.last s as) := by
  induction as generalizing s with
  | nil => exact puts_pure _
  | cons a as ih => exact (hstep s a h.1).bind (ih h.2)

end Rules

end RunD
