/-
Checked computations: the setting in which the loops of a C++ function are
written down so that an index outside its array is an outcome of its own and
not a silently chosen default.

A computation over `Checked ε` ends in one of three ways.  It returns a value;
it leaves through an early `return`, carrying the value `ε` that the early
return hands to the caller (`Stop.reject`); or it touches an array outside its
bounds (`Stop.outOfBounds`), which the modelled program must never do.

`Safely x Q` is the one judgement the later modules reason with: `x` stays
inside every array, and when it returns a value then `Q` holds of that value.
Each operation below comes with its rule for `Safely`, and the two loop forms
(`forRange` for counted loops, `forEach` for range loops) with an invariant
rule.
-/
import Mathlib.Data.List.Basic
import Mathlib.Tactic.Common

namespace RunD

/-! ### Computations that can leave early or leave an array -/

/-- Why a checked computation did not return a value. -/
inductive Stop (ε : Type) where
  /-- An early `return`, with what it returns. -/
  | reject (result : ε)
  /-- An access outside the bounds of an array. -/
  | outOfBounds
  deriving DecidableEq, Repr

/-- A computation that may leave early with an `ε` or fault on an array access. -/
abbrev Checked (ε : Type) := Except (Stop ε)

variable {ε α β σ : Type}

/-- Leave early with `result`. -/
def leave (result : ε) : Checked ε α := Except.error (Stop.reject result)

/-- Continue only when `p` holds; otherwise leave early with `result`. -/
def require (p : Prop) [Decidable p] (result : ε) : Checked ε Unit :=
  if p then pure () else leave result

/-- `xs[i]` as a load. -/
def fetch (xs : List α) (i : Nat) : Checked ε α :=
  match xs[i]? with
  | some a => pure a
  | none => Except.error Stop.outOfBounds

/-- `xs[i] = a` as a store, returning the array after the store. -/
def assign (xs : List α) (i : Nat) (a : α) : Checked ε (List α) :=
  if i < xs.length then pure (xs.set i a) else Except.error Stop.outOfBounds

/-- `for (i = 0; i < n; ++i) s = step(i, s)`. -/
def forRange : Nat → (Nat → σ → Checked ε σ) → σ → Checked ε σ
  | 0, _, s => pure s
  | n + 1, step, s => do
      let s ← forRange n step s
      step n s

/-- `for (const auto& x : xs) s = step(x, s)`. -/
def forEach : List α → (α → σ → Checked ε σ) → σ → Checked ε σ
  | [], _, s => pure s
  | x :: xs, step, s => do
      let s ← step x s
      forEach xs step s

/-- `for (i = 0; i < n; ++i) s = step(xs[i], s)`. -/
def forIndex (n : Nat) (xs : List α) (step : α → σ → Checked ε σ) (s : σ) : Checked ε σ :=
  forRange n (fun i s => do
    let x ← fetch xs i
    step x s) s

/-- A call of a function whose early returns are its results. -/
def call (x : Checked α α) : Checked ε α :=
  match x with
  | Except.ok a => pure a
  | Except.error (Stop.reject a) => pure a
  | Except.error Stop.outOfBounds => Except.error Stop.outOfBounds

/-! ### Inversion of successful runs -/

theorem bind_eq_ok {x : Checked ε α} {f : α → Checked ε β} {b : β} :
    (x >>= f) = Except.ok b ↔ ∃ a, x = Except.ok a ∧ f a = Except.ok b := by
  rcases x with e | a
  · simp [bind, Except.bind]
  · simp [bind, Except.bind]

theorem ok_bind (a : α) (f : α → Checked ε β) :
    ((Except.ok a : Checked ε α) >>= f) = f a := rfl

theorem error_bind (stop : Stop ε) (f : α → Checked ε β) :
    ((Except.error stop : Checked ε α) >>= f) = Except.error stop := rfl

theorem pure_eq_ok {a b : α} : (pure a : Checked ε α) = Except.ok b ↔ a = b :=
  Except.ok.injEq a b ▸ Iff.rfl

@[simp] theorem leave_ne_ok {r : ε} {a : α} : (leave r : Checked ε α) ≠ Except.ok a := nofun

theorem require_of_holds {p : Prop} [Decidable p] {r : ε} (h : p) :
    require p r = Except.ok () := if_pos h

theorem require_of_fails {p : Prop} [Decidable p] {r : ε} (h : ¬ p) :
    require p r = leave r := if_neg h

theorem require_eq_ok {p : Prop} [Decidable p] {r : ε} {u : Unit} :
    require p r = Except.ok u ↔ p := by
  by_cases hp : p
  · exact iff_of_true (require_of_holds hp) hp
  · rw [require_of_fails hp]
    exact iff_of_false leave_ne_ok hp

theorem fetch_eq_ok {xs : List α} {i : Nat} {a : α} :
    (fetch xs i : Checked ε α) = Except.ok a ↔ xs[i]? = some a := by
  have hfetch : (fetch xs i : Checked ε α) = match xs[i]? with
    | some a => pure a
    | none => Except.error Stop.outOfBounds := rfl
  rw [hfetch]
  rcases xs[i]? with - | b
  · exact iff_of_false nofun nofun
  · rw [Option.some.injEq]
    exact pure_eq_ok

theorem assign_eq_ok {xs ys : List α} {i : Nat} {a : α} :
    (assign xs i a : Checked ε (List α)) = Except.ok ys ↔ i < xs.length ∧ xs.set i a = ys := by
  have hassign : (assign xs i a : Checked ε (List α)) =
    if i < xs.length then pure (xs.set i a) else Except.error Stop.outOfBounds := rfl
  rw [hassign]
  by_cases h : i < xs.length
  · rw [if_pos h, pure_eq_ok, and_iff_right h]
  · rw [if_neg h]
    exact iff_of_false nofun fun hinside => h hinside.1

theorem fetch_of_lt {xs : List α} {i : Nat} {a : α} (h : xs[i]? = some a) :
    (fetch xs i : Checked ε α) = Except.ok a := fetch_eq_ok.mpr h

theorem assign_of_lt {xs : List α} {i : Nat} {a : α} (h : i < xs.length) :
    (assign xs i a : Checked ε (List α)) = Except.ok (xs.set i a) :=
  assign_eq_ok.mpr ⟨h, rfl⟩

theorem forRange_zero (step : Nat → σ → Checked ε σ) (s : σ) :
    forRange 0 step s = Except.ok s := rfl

theorem forRange_succ (n : Nat) (step : Nat → σ → Checked ε σ) (s : σ) :
    forRange (n + 1) step s = forRange n step s >>= step n := rfl

theorem forEach_cons (x : α) (xs : List α) (step : α → σ → Checked ε σ) (s : σ) :
    forEach (x :: xs) step s = step x s >>= fun t => forEach xs step t := rfl

theorem forEach_append (xs ys : List α) (step : α → σ → Checked ε σ) (s : σ) :
    forEach (xs ++ ys) step s = forEach xs step s >>= forEach ys step := by
  induction xs generalizing s with
  | nil => rfl
  | cons x xs ih =>
      rw [List.cons_append, forEach_cons, forEach_cons]
      rcases step x s with e | t
      · rfl
      · exact ih t

/-- A counted loop over the places of a list visits its items. -/
theorem forIndex_eq_forEach (n : Nat) (xs : List α) (step : α → σ → Checked ε σ) (s : σ)
    (h : n ≤ xs.length) : forIndex n xs step s = forEach (xs.take n) step s := by
  induction n with
  | zero => rfl
  | succ n ih =>
      have hget : xs[n]? = some xs[n] := List.getElem?_eq_getElem (by omega)
      have hlast : forIndex (n + 1) xs step s = forIndex n xs step s >>= fun t =>
        (fetch xs n >>= fun x => step x t) := rfl
      rw [hlast, ih (by omega), List.take_add_one, hget, Option.toList_some, forEach_append]
      congr 1
      funext t
      rw [fetch_of_lt hget, ok_bind, forEach_cons]
      rcases step xs[n] t with e | u
      · rfl
      · rfl

/-- The invariant rule of a counted loop that ran to its end. -/
theorem forRange_inv {step : Nat → σ → Checked ε σ} {P : Nat → σ → Prop} {n : Nat} {s s' : σ}
    (h0 : P 0 s)
    (hstep : ∀ i t t', i < n → P i t → step i t = Except.ok t' → P (i + 1) t')
    (hrun : forRange n step s = Except.ok s') : P n s' := by
  induction n generalizing s' with
  | zero =>
      rw [forRange_zero, Except.ok.injEq] at hrun
      exact hrun ▸ h0
  | succ n ih =>
      rw [forRange_succ, bind_eq_ok] at hrun
      obtain ⟨t, ht, hs'⟩ := hrun
      have hP : P n t := ih (fun i u u' hi => hstep i u u' (by omega)) ht
      exact hstep n t s' (by omega) hP hs'

/-- A range loop of checks that ran to its end has passed every item. -/
theorem forEach_checks {check : α → Checked ε Unit} {xs : List α} {u : Unit}
    (h : forEach xs (fun x _ => check x) () = Except.ok u) :
    ∀ x ∈ xs, check x = Except.ok () := by
  induction xs with
  | nil => exact fun x hx => absurd hx (by simp)
  | cons x xs ih =>
      rw [forEach_cons, bind_eq_ok] at h
      obtain ⟨_, hx, hrest⟩ := h
      intro y hy
      rcases List.mem_cons.mp hy with rfl | hy
      · exact hx
      · exact ih hrest y hy

/-- A counted loop runs to its end when every step does, along an invariant. -/
theorem forRange_returns {f : Nat → σ → Checked ε σ} (P : Nat → σ → Prop) {n : Nat} {s : σ}
    (h0 : P 0 s)
    (hstep : ∀ i t, i < n → P i t → ∃ t', f i t = Except.ok t' ∧ P (i + 1) t') :
    ∃ s', forRange n f s = Except.ok s' ∧ P n s' := by
  induction n with
  | zero => exact ⟨s, rfl, h0⟩
  | succ n ih =>
      obtain ⟨t, ht, hP⟩ := ih fun i u hi => hstep i u (by omega)
      obtain ⟨t', ht', hP'⟩ := hstep n t (by omega) hP
      refine ⟨t', ?_, hP'⟩
      rw [forRange_succ, ht]
      exact ht'

/-! ### Staying inside the arrays -/

/-- `x` never leaves an array, and a value it returns satisfies `Q`. -/
def Safely (x : Checked ε α) (Q : α → Prop) : Prop :=
  match x with
  | Except.ok a => Q a
  | Except.error (Stop.reject _) => True
  | Except.error Stop.outOfBounds => False

variable {Q : α → Prop} {R : β → Prop}

theorem safely_iff {x : Checked ε α} :
    Safely x Q ↔ x ≠ Except.error Stop.outOfBounds ∧ ∀ a, x = Except.ok a → Q a := by
  rcases x with (r | -) | a
  · exact iff_of_true trivial ⟨nofun, nofun⟩
  · exact iff_of_false id fun h => h.1 rfl
  · constructor
    · intro h
      refine ⟨nofun, fun b hb => ?_⟩
      obtain rfl := Except.ok.inj hb
      exact h
    · exact fun h => h.2 a rfl

theorem Safely.post {x : Checked ε α} (h : Safely x Q) {a : α} (hx : x = Except.ok a) : Q a :=
  (safely_iff.mp h).2 a hx

theorem Safely.inBounds {x : Checked ε α} (h : Safely x Q) :
    x ≠ Except.error Stop.outOfBounds :=
  (safely_iff.mp h).1

theorem Safely.mono {x : Checked ε α} {Q' : α → Prop} (h : Safely x Q)
    (hQ : ∀ a, Q a → Q' a) : Safely x Q' :=
  safely_iff.mpr ⟨h.inBounds, fun _ hx => hQ _ (h.post hx)⟩

theorem safely_pure {a : α} (h : Q a) : Safely (pure a : Checked ε α) Q := h

theorem safely_leave (r : ε) : Safely (leave r : Checked ε α) Q := trivial

theorem Safely.bind {x : Checked ε α} {f : α → Checked ε β} (hx : Safely x Q)
    (hf : ∀ a, Q a → Safely (f a) R) : Safely (x >>= f) R := by
  rcases x with (r | -) | a
  · trivial
  · exact hx
  · exact hf a hx

/-- The same rule, for a first part about whose run more than a postcondition is known. -/
theorem Safely.bind_run {x : Checked ε α} {f : α → Checked ε β} (hx : Safely x Q)
    (hf : ∀ a, x = Except.ok a → Q a → Safely (f a) R) : Safely (x >>= f) R := by
  rcases x with (r | -) | a
  · trivial
  · exact hx
  · exact hf a rfl hx

theorem safely_require (p : Prop) [Decidable p] (r : ε) :
    Safely (require p r) fun _ => p := by
  by_cases hp : p
  · rw [require_of_holds hp]
    exact hp
  · rw [require_of_fails hp]
    exact safely_leave r

/-- What follows a check may assume it. -/
theorem Safely.require_bind {p : Prop} [Decidable p] {r : ε} {f : Unit → Checked ε β}
    (hf : p → Safely (f ()) R) : Safely (require p r >>= f) R :=
  Safely.bind (safely_require p r) fun _ hp => hf hp

theorem safely_fetch {xs : List α} {i : Nat} (h : i < xs.length) :
    Safely (fetch xs i : Checked ε α) fun a => xs[i]? = some a := by
  obtain ⟨a, ha⟩ : ∃ a, xs[i]? = some a := ⟨xs[i], List.getElem?_eq_getElem h⟩
  rw [fetch_of_lt ha]
  exact ha

theorem safely_assign {xs : List α} {i : Nat} {a : α} (h : i < xs.length) :
    Safely (assign xs i a : Checked ε (List α)) fun ys => ys = xs.set i a := by
  rw [assign_of_lt h]
  exact rfl

/-- A called function is safe when its body is, and its result is what the body returns or
leaves with. -/
theorem safely_call {x : Checked α α} (hx : Safely x Q)
    (hleave : ∀ a, x = Except.error (Stop.reject a) → Q a) : Safely (call x : Checked ε α) Q := by
  rcases x with (a | -) | a
  · exact hleave a rfl
  · exact hx
  · exact hx

/-- The invariant rule of a counted loop, for safety and result at once. -/
theorem safely_forRange {step : Nat → σ → Checked ε σ} (P : Nat → σ → Prop) {n : Nat} {s : σ}
    (h0 : P 0 s)
    (hstep : ∀ i t, i < n → P i t → Safely (step i t) (P (i + 1))) :
    Safely (forRange n step s) (P n) := by
  induction n with
  | zero => exact safely_pure h0
  | succ n ih =>
      rw [forRange_succ]
      refine Safely.bind (ih fun i t hi => hstep i t (by omega)) ?_
      exact fun t ht => hstep n t (by omega) ht

/-- The invariant rule of a range loop: the invariant speaks of the items already visited. -/
theorem safely_forEach {step : α → σ → Checked ε σ} (P : List α → σ → Prop)
    {xs : List α} (done : List α) {s : σ} (h0 : P done s)
    (hstep : ∀ seen x t, x ∈ xs → P seen t → Safely (step x t) (P (seen ++ [x]))) :
    Safely (forEach xs step s) (P (done ++ xs)) := by
  induction xs generalizing done s with
  | nil =>
      rw [List.append_nil]
      exact safely_pure h0
  | cons x xs ih =>
      refine Safely.bind (hstep done x s (by simp) h0) fun t ht => ?_
      have := ih (done ++ [x]) ht fun seen y u hy => hstep seen y u (by simp [hy])
      simpa using this

/-! ### Early returns with a postcondition -/

/-- `x` never leaves an array, a value it returns satisfies `Q`, and what it leaves early with
satisfies `R`. -/
def Ends (x : Checked ε α) (Q : α → Prop) (R : ε → Prop) : Prop :=
  match x with
  | Except.ok a => Q a
  | Except.error (Stop.reject r) => R r
  | Except.error Stop.outOfBounds => False

theorem ends_pure {a : α} {E : ε → Prop} (h : Q a) : Ends (pure a : Checked ε α) Q E := h

theorem ends_leave {r : ε} {E : ε → Prop} (h : E r) : Ends (leave r : Checked ε α) Q E := h

theorem Ends.bind {x : Checked ε α} {f : α → Checked ε β} {E : ε → Prop} (hx : Ends x Q E)
    (hf : ∀ a, Q a → Ends (f a) R E) : Ends (x >>= f) R E := by
  rcases x with (r | -) | a
  · exact hx
  · exact hx
  · exact hf a hx

theorem Ends.mono {x : Checked ε α} {E E' : ε → Prop} (h : Ends x Q E) (hE : ∀ r, E r → E' r) :
    Ends x Q E' := by
  rcases x with (r | -) | a
  · exact hE r h
  · exact h
  · exact h

theorem Ends.require_bind {p : Prop} [Decidable p] {r : ε} {f : Unit → Checked ε β}
    {E : ε → Prop} (hr : ¬ p → E r) (hf : p → Ends (f ()) R E) :
    Ends (require p r >>= f) R E := by
  by_cases hp : p
  · rw [require_of_holds hp]
    exact hf hp
  · rw [require_of_fails hp]
    exact hr hp

theorem Ends.mono_post {x : Checked ε α} {E : ε → Prop} {Q' : α → Prop} (h : Ends x Q E)
    (hQ : ∀ a, Q a → Q' a) : Ends x Q' E := by
  rcases x with (r | -) | a
  · exact h
  · exact h
  · exact hQ a h

theorem ends_fetch {xs : List α} {i : Nat} {E : ε → Prop} (h : i < xs.length) :
    Ends (fetch xs i : Checked ε α) (fun a => xs[i]? = some a) E := by
  obtain ⟨a, ha⟩ : ∃ a, xs[i]? = some a := ⟨xs[i], List.getElem?_eq_getElem h⟩
  rw [fetch_of_lt ha]
  exact ha

/-- The invariant rule of a counted loop, for what it returns and what it leaves with. -/
theorem ends_forRange {step : Nat → σ → Checked ε σ} {E : ε → Prop} (P : Nat → σ → Prop)
    {n : Nat} {s : σ} (h0 : P 0 s)
    (hstep : ∀ i t, i < n → P i t → Ends (step i t) (P (i + 1)) E) :
    Ends (forRange n step s) (P n) E := by
  induction n with
  | zero => exact ends_pure h0
  | succ n ih =>
      rw [forRange_succ]
      refine Ends.bind (ih fun i t hi => hstep i t (by omega)) ?_
      exact fun t ht => hstep n t (by omega) ht

/-- The invariant rule of a range loop: the invariant speaks of the items visited and of those
still to come. -/
theorem ends_forEach {step : α → σ → Checked ε σ} {E : ε → Prop} (P : List α → σ → Prop)
    {xs : List α} (done : List α) {s : σ} (h0 : P done s)
    (hstep : ∀ seen x rest t, done ++ xs = seen ++ x :: rest → P seen t →
      Ends (step x t) (P (seen ++ [x])) E) :
    Ends (forEach xs step s) (P (done ++ xs)) E := by
  induction xs generalizing done s with
  | nil =>
      rw [List.append_nil]
      exact ends_pure h0
  | cons x xs ih =>
      refine Ends.bind (hstep done x xs s rfl h0) fun t ht => ?_
      have hrest := ih (done ++ [x]) ht fun seen y rest u hsplit =>
        hstep seen y rest u (by rw [← hsplit, List.append_assoc, List.singleton_append])
      rwa [List.append_assoc, List.singleton_append] at hrest

/-- What ends without leaving early has returned. -/
theorem Ends.returns {x : Checked ε α} (h : Ends x Q fun _ => False) :
    ∃ a, x = Except.ok a ∧ Q a := by
  rcases x with (r | -) | a
  · exact absurd h id
  · exact absurd h id
  · exact ⟨a, rfl, h⟩

/-- A called function never leaves its caller early. -/
theorem Ends.call {x : Checked α α} {E : ε → Prop} (hx : Ends x Q Q) :
    Ends (call x : Checked ε α) Q E := by
  rcases x with (a | -) | a
  · exact hx
  · exact hx
  · exact hx

end RunD
