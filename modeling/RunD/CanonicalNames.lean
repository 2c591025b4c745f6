/-
Names given out in the order of first use.

A thing that is used gets the next number as its name and keeps it until it is
closed; used again after that, it counts as a new thing.  At most `limit`
things have a name at a time, and names stay below `bound`.

The names depend on the things only through which uses are uses of the same
thing: two runs that are the same up to a renaming give out the same names
(`SameShape.answers_eq`), even when the renaming changes with every close.
-/
import Mathlib.Data.List.Forall2
import Mathlib.Data.List.Nodup

namespace RunD

variable {α β : Type}

/-- The things that have a name, with their names, and the next name. -/
structure Names (α : Type) where
  opens : List (α × Nat) := []
  next : Nat := 1
  deriving Repr

/-- A use of a thing, or its end. -/
inductive NameOp (α : Type) where
  | use (thing : α)
  | close (thing : α)
  deriving DecidableEq, Repr

/-- What an operation answers. -/
inductive NameAnswer where
  | named (name : Option Nat)
  | closed (found : Bool)
  deriving DecidableEq, Repr

namespace Names

/-- No thing has two names, no name belongs to two things, and names come from below `next`. -/
structure Valid (names : Names α) : Prop where
  things : (names.opens.map Prod.fst).Nodup
  distinct : (names.opens.map Prod.snd).Nodup
  below : ∀ entry ∈ names.opens, 1 ≤ entry.2 ∧ entry.2 < names.next
  next_pos : 1 ≤ names.next

theorem valid_start : ({} : Names α).Valid :=
  ⟨List.nodup_nil, List.nodup_nil, fun _ h => absurd h (by simp), Nat.le_refl 1⟩

variable [DecidableEq α] [DecidableEq β]

/-- The name of a thing. -/
def nameOf (names : Names α) (thing : α) : Option Nat :=
  (names.opens.find? fun entry => entry.1 = thing).map Prod.snd

def use (limit bound : Nat) (names : Names α) (thing : α) : Option Nat × Names α :=
  match names.nameOf thing with
  | some name => (some name, names)
  | none =>
      if limit ≤ names.opens.length ∨ bound ≤ names.next then (none, names)
      else (some names.next,
        { opens := (thing, names.next) :: names.opens, next := names.next + 1 })

def close (names : Names α) (thing : α) : Bool × Names α :=
  match names.nameOf thing with
  | some _ => (true, { names with opens := names.opens.eraseP fun entry => entry.1 = thing })
  | none => (false, names)

def step (limit bound : Nat) (names : Names α) : NameOp α → NameAnswer × Names α
  | .use thing => ((names.use limit bound thing).map .named id)
  | .close thing => ((names.close thing).map .closed id)

/-- The answers of operations in a row, and the names at the end. -/
def run (limit bound : Nat) : Names α → List (NameOp α) → List NameAnswer × Names α
  | names, [] => ([], names)
  | names, op :: ops =>
      let (answer, names) := names.step limit bound op
      let (answers, names) := run limit bound names ops
      (answer :: answers, names)

/-! ### What holds at any time -/

theorem nameOf_eq_none {names : Names α} {thing : α} :
    names.nameOf thing = none ↔ thing ∉ names.opens.map Prod.fst := by
  rw [nameOf, Option.map_eq_none_iff, List.find?_eq_none]
  constructor
  · intro h hmem
    obtain ⟨entry, hentry, rfl⟩ := List.mem_map.mp hmem
    exact h entry hentry (decide_eq_true rfl)
  · intro h entry hentry
    rw [decide_eq_true_eq]
    rintro rfl
    exact h (List.mem_map_of_mem hentry)

theorem Valid.nameOf_eq_some {names : Names α} (h : names.Valid) {thing : α} {name : Nat} :
    names.nameOf thing = some name ↔ (thing, name) ∈ names.opens := by
  rw [nameOf, Option.map_eq_some_iff]
  constructor
  · rintro ⟨⟨found, _⟩, hfind, rfl⟩
    have hsame : found = thing := by simpa using List.find?_some hfind
    rw [← hsame]
    exact List.mem_of_find?_eq_some hfind
  · intro hmem
    rcases hfind : names.opens.find? fun entry => entry.1 = thing with - | found
    · exact absurd (decide_eq_true rfl) (List.find?_eq_none.mp hfind _ hmem)
    · have hsame : found.1 = thing := by simpa using List.find?_some hfind
      have hfound := List.inj_on_of_nodup_map h.things (List.mem_of_find?_eq_some hfind) hmem hsame
      exact ⟨found, hfind, by rw [hfound]⟩

theorem Valid.use {names : Names α} (h : names.Valid) (limit bound : Nat) (thing : α) :
    (names.use limit bound thing).2.Valid := by
  rw [Names.use]
  rcases hname : names.nameOf thing with - | name
  · dsimp only
    split_ifs
    · exact h
    · refine ⟨List.nodup_cons.mpr ⟨nameOf_eq_none.mp hname, h.things⟩,
        List.nodup_cons.mpr ⟨?_, h.distinct⟩, ?_, Nat.le_succ_of_le h.next_pos⟩
      · intro hmem
        obtain ⟨entry, hentry, hnext⟩ := List.mem_map.mp hmem
        have := (h.below entry hentry).2
        omega
      · intro entry hentry
        rcases List.mem_cons.mp hentry with rfl | hentry
        · exact ⟨h.next_pos, Nat.lt_succ_self _⟩
        · have := h.below entry hentry
          exact ⟨this.1, Nat.lt_succ_of_lt this.2⟩
  · exact h

theorem Valid.close {names : Names α} (h : names.Valid) (thing : α) :
    (names.close thing).2.Valid := by
  rw [Names.close]
  rcases names.nameOf thing with - | name
  · exact h
  · have hsub : (names.opens.eraseP fun entry => entry.1 = thing).Sublist names.opens :=
      List.eraseP_sublist
    exact ⟨(hsub.map _).nodup h.things, (hsub.map _).nodup h.distinct,
      fun entry hentry => h.below entry (hsub.subset hentry), h.next_pos⟩

/-- What is left when a thing is closed. -/
theorem Valid.mem_eraseP {names : Names α} (h : names.Valid) {thing : α} {x : α × Nat} :
    x ∈ names.opens.eraseP (fun entry => entry.1 = thing) ↔
      x ∈ names.opens ∧ x.1 ≠ thing := by
  have herase : ∀ {xs : List (α × Nat)}, (xs.map Prod.fst).Nodup →
      (x ∈ xs.eraseP (fun entry => entry.1 = thing) ↔ x ∈ xs ∧ x.1 ≠ thing) := by
    intro xs hnodup
    induction xs with
    | nil => simp
    | cons y ys ih =>
        rw [List.map_cons, List.nodup_cons] at hnodup
        by_cases hy : y.1 = thing
        · rw [List.eraseP_cons_of_pos (by simpa using hy), List.mem_cons]
          constructor
          · intro hx
            refine ⟨Or.inr hx, fun heq => hnodup.1 ?_⟩
            rw [hy, ← heq]
            exact List.mem_map_of_mem hx
          · rintro ⟨rfl | hx, hne⟩
            · exact absurd hy hne
            · exact hx
        · rw [List.eraseP_cons_of_neg (by simpa using hy), List.mem_cons, List.mem_cons,
            ih hnodup.2]
          constructor
          · rintro (rfl | ⟨hx, hne⟩)
            · exact ⟨Or.inl rfl, hy⟩
            · exact ⟨Or.inr hx, hne⟩
          · rintro ⟨rfl | hx, hne⟩
            · exact Or.inl rfl
            · exact Or.inr ⟨hx, hne⟩
  exact herase h.things

theorem Valid.step {names : Names α} (h : names.Valid) (limit bound : Nat) (op : NameOp α) :
    (names.step limit bound op).2.Valid := by
  cases op with
  | use thing => exact h.use limit bound thing
  | close thing => exact h.close thing

/-! ### Names are fresh -/

theorem next_le_step (names : Names α) (limit bound : Nat) (op : NameOp α) :
    names.next ≤ (names.step limit bound op).2.next := by
  cases op with
  | use thing =>
      show names.next ≤ (names.use limit bound thing).2.next
      rw [use]
      rcases names.nameOf thing with - | name
      · dsimp only
        split_ifs
        · exact Nat.le_refl _
        · exact Nat.le_succ _
      · exact Nat.le_refl _
  | close thing =>
      show names.next ≤ (names.close thing).2.next
      rw [close]
      rcases names.nameOf thing with - | name
      · exact Nat.le_refl _
      · exact Nat.le_refl _

theorem next_le_run (names : Names α) (limit bound : Nat) (ops : List (NameOp α)) :
    names.next ≤ (names.run limit bound ops).2.next := by
  induction ops generalizing names with
  | nil => exact Nat.le_refl _
  | cons op ops ih => exact Nat.le_trans (names.next_le_step limit bound op) (ih _)

/-- A name that is given out is below the next one from then on. -/
theorem Valid.named_lt {names : Names α} (h : names.Valid) (limit bound : Nat)
    (ops : List (NameOp α)) {name : Nat}
    (hname : .named (some name) ∈ (names.run limit bound ops).1) :
    name < (names.run limit bound ops).2.next := by
  induction ops generalizing names with
  | nil => exact absurd hname (by rw [Names.run]; simp)
  | cons op ops ih =>
      rcases List.mem_cons.mp hname with hfirst | hrest
      · refine Nat.lt_of_lt_of_le ?_ (next_le_run _ limit bound ops)
        cases op with
        | use thing =>
            have hanswer : (names.use limit bound thing).1 = some name := by
              simpa [Names.step] using hfirst.symm
            show name < (names.use limit bound thing).2.next
            rw [Names.use] at hanswer ⊢
            rcases hfound : names.nameOf thing with - | found
            · rw [hfound] at hanswer
              dsimp only at hanswer ⊢
              split_ifs at hanswer ⊢
              · cases hanswer
                exact Nat.lt_succ_self _
            · rw [hfound] at hanswer
              cases hanswer
              exact (h.below _ (h.nameOf_eq_some.mp hfound)).2
        | close thing => exact absurd hfirst (by simp)
      · exact ih (h.step limit bound op) hrest

/-- A thing without a name gets one above all that were given out before, unless there is no
room. -/
theorem use_of_new {names : Names α} {thing : α} (hnew : names.nameOf thing = none)
    (limit bound : Nat) :
    (names.use limit bound thing).1 = some names.next ∧ names.next < bound ∨
      (names.use limit bound thing).1 = none ∧
        (limit ≤ names.opens.length ∨ bound ≤ names.next) := by
  rw [use, hnew]
  dsimp only
  split_ifs with hfull
  · exact Or.inr ⟨rfl, hfull⟩
  · exact Or.inl ⟨rfl, Nat.lt_of_not_le fun hle => hfull (Or.inr hle)⟩

end Names

/-! ### Renaming -/

/-- Two runs of the same shape: where one uses or closes a thing, the other does so with the thing
that corresponds to it.  `pairs` are the things that correspond to each other now: no thing has two
partners, and a pair ends with its close, so that a thing may get another partner later. -/
inductive SameShape [DecidableEq α] : List (α × β) → List (NameOp α) → List (NameOp β) → Prop where
  | nil {pairs : List (α × β)} : SameShape pairs [] []
  | use {pairs : List (α × β)} {a : α} {b : β} {as : List (NameOp α)} {bs : List (NameOp β)}
      (hpair : (a, b) ∈ pairs) (hrest : SameShape pairs as bs) :
      SameShape pairs (.use a :: as) (.use b :: bs)
  | meet {pairs : List (α × β)} {a : α} {b : β} {as : List (NameOp α)} {bs : List (NameOp β)}
      (ha : a ∉ pairs.map Prod.fst) (hb : b ∉ pairs.map Prod.snd)
      (hrest : SameShape ((a, b) :: pairs) as bs) :
      SameShape pairs (.use a :: as) (.use b :: bs)
  | close {pairs : List (α × β)} {a : α} {b : β} {as : List (NameOp α)} {bs : List (NameOp β)}
      (hpair : (a, b) ∈ pairs) (hrest : SameShape (pairs.filter fun pair => pair.1 ≠ a) as bs) :
      SameShape pairs (.close a :: as) (.close b :: bs)

namespace Names

/-- The names of two runs at the same moment. -/
structure Alike (s : Names α) (pairs : List (α × β)) (t : Names β) : Prop where
  partners : ∀ x ∈ pairs, ∀ y ∈ pairs, x.1 = y.1 ↔ x.2 = y.2
  opens : List.Forall₂ (fun x y => (x.1, y.1) ∈ pairs ∧ x.2 = y.2) s.opens t.opens
  next : s.next = t.next

theorem alike_start : Alike ({} : Names α) ([] : List (α × β)) {} :=
  ⟨fun _ h => absurd h (by simp), List.Forall₂.nil, rfl⟩

variable [DecidableEq α] [DecidableEq β] {pairs : List (α × β)} {s : Names α} {t : Names β}

/-- Partners have the same name. -/
theorem Alike.nameOf_eq (h : Alike s pairs t) {a : α} {b : β} (hpair : (a, b) ∈ pairs) :
    s.nameOf a = t.nameOf b := by
  have hfind : ∀ {xs : List (α × Nat)} {ys : List (β × Nat)},
      List.Forall₂ (fun x y => (x.1, y.1) ∈ pairs ∧ x.2 = y.2) xs ys →
      (xs.find? fun entry => entry.1 = a).map Prod.snd =
        (ys.find? fun entry => entry.1 = b).map Prod.snd := by
    intro xs ys hopens
    induction hopens with
    | nil => rfl
    | @cons x y xs ys hxy _ ih =>
        have hsame : x.1 = a ↔ y.1 = b := h.partners _ hxy.1 _ hpair
        by_cases hx : x.1 = a
        · rw [List.find?_cons_of_pos (by simpa using hx),
            List.find?_cons_of_pos (by simpa using hsame.mp hx)]
          exact congrArg some hxy.2
        · rw [List.find?_cons_of_neg (by simpa using hx),
            List.find?_cons_of_neg (by simpa using hsame.not.mp hx)]
          exact ih
  exact hfind h.opens

theorem Alike.use (h : Alike s pairs t) {a : α} {b : β} (hpair : (a, b) ∈ pairs)
    (limit bound : Nat) :
    (s.use limit bound a).1 = (t.use limit bound b).1 ∧
      Alike (s.use limit bound a).2 pairs (t.use limit bound b).2 := by
  rw [Names.use, Names.use, h.nameOf_eq hpair, h.opens.length_eq, h.next]
  rcases t.nameOf b with - | name
  · dsimp only
    split_ifs
    · exact ⟨rfl, h⟩
    · exact ⟨rfl, h.partners, List.Forall₂.cons ⟨hpair, rfl⟩ h.opens, rfl⟩
  · exact ⟨rfl, h⟩

omit [DecidableEq α] [DecidableEq β] in
/-- Two things that meet for the first time become partners. -/
theorem Alike.meet (h : Alike s pairs t) {a : α} {b : β} (ha : a ∉ pairs.map Prod.fst)
    (hb : b ∉ pairs.map Prod.snd) : Alike s ((a, b) :: pairs) t := by
  have hfst : ∀ x ∈ pairs, x.1 ≠ a := fun x hx hxa => ha (hxa ▸ List.mem_map_of_mem hx)
  have hsnd : ∀ x ∈ pairs, x.2 ≠ b := fun x hx hxb => hb (hxb ▸ List.mem_map_of_mem hx)
  refine ⟨?_, h.opens.imp fun x y hxy => ⟨List.mem_cons_of_mem _ hxy.1, hxy.2⟩, h.next⟩
  intro x hx y hy
  rcases List.mem_cons.mp hx with rfl | hx
  · rcases List.mem_cons.mp hy with rfl | hy
    · exact ⟨fun _ => rfl, fun _ => rfl⟩
    · exact ⟨fun hxy => absurd hxy.symm (hfst y hy), fun hxy => absurd hxy.symm (hsnd y hy)⟩
  · rcases List.mem_cons.mp hy with rfl | hy
    · exact ⟨fun hxy => absurd hxy (hfst x hx), fun hxy => absurd hxy (hsnd x hx)⟩
    · exact h.partners x hx y hy

/-- What is left when the entries of two partners are gone. -/
theorem forall₂_eraseP {xs : List (α × Nat)} {ys : List (β × Nat)} {a : α} {b : β}
    (hpartners : ∀ x ∈ pairs, x.1 = a ↔ x.2 = b)
    (h : List.Forall₂ (fun x y => (x.1, y.1) ∈ pairs ∧ x.2 = y.2) xs ys)
    (hnodup : (xs.map Prod.fst).Nodup) :
    List.Forall₂ (fun x y => (x.1, y.1) ∈ pairs.filter (fun pair => pair.1 ≠ a) ∧ x.2 = y.2)
      (xs.eraseP fun entry => entry.1 = a) (ys.eraseP fun entry => entry.1 = b) := by
  induction h with
  | nil => exact List.Forall₂.nil
  | @cons x y xs ys hxy hrest ih =>
      have hsame : x.1 = a ↔ y.1 = b := hpartners _ hxy.1
      rw [List.map_cons, List.nodup_cons] at hnodup
      by_cases hx : x.1 = a
      · rw [List.eraseP_cons_of_pos (by simpa using hx),
          List.eraseP_cons_of_pos (by simpa using hsame.mp hx)]
        -- no other entry is one of `a`
        have hother : ∀ entry ∈ xs, entry.1 ≠ a := by
          intro entry hentry heq
          exact hnodup.1 (by rw [hx, ← heq]; exact List.mem_map_of_mem hentry)
        refine ((List.forall₂_and_left _ _).mpr ⟨hother, hrest⟩).imp ?_
        rintro x' y' ⟨hne, hpair, heq⟩
        exact ⟨List.mem_filter.mpr ⟨hpair, decide_eq_true hne⟩, heq⟩
      · rw [List.eraseP_cons_of_neg (by simpa using hx),
          List.eraseP_cons_of_neg (by simpa using hsame.not.mp hx)]
        exact List.Forall₂.cons
          ⟨List.mem_filter.mpr ⟨hxy.1, decide_eq_true hx⟩, hxy.2⟩ (ih hnodup.2)

theorem Alike.close (h : Alike s pairs t) (hs : s.Valid) {a : α} {b : β}
    (hpair : (a, b) ∈ pairs) :
    (s.close a).1 = (t.close b).1 ∧
      Alike (s.close a).2 (pairs.filter fun pair => pair.1 ≠ a) (t.close b).2 := by
  have hpartners : ∀ x ∈ pairs.filter (fun pair => pair.1 ≠ a),
      ∀ y ∈ pairs.filter (fun pair => pair.1 ≠ a), x.1 = y.1 ↔ x.2 = y.2 := fun x hx y hy =>
    h.partners x (List.mem_of_mem_filter hx) y (List.mem_of_mem_filter hy)
  have herased := @forall₂_eraseP α β _ _ pairs s.opens t.opens a b
    (fun x hx => h.partners x hx _ hpair) h.opens hs.things
  have hname := h.nameOf_eq hpair
  rw [Names.close, Names.close, ← hname]
  rcases hs' : s.nameOf a with - | name
  · -- neither of them had a name, so nothing was there to erase
    have hsame : s.opens.eraseP (fun entry => entry.1 = a) = s.opens := by
      refine List.eraseP_of_forall_not fun entry hentry heq => ?_
      exact nameOf_eq_none.mp hs' (List.mem_map.mpr ⟨entry, hentry, of_decide_eq_true heq⟩)
    have hsame' : t.opens.eraseP (fun entry => entry.1 = b) = t.opens := by
      refine List.eraseP_of_forall_not fun entry hentry heq => ?_
      exact nameOf_eq_none.mp (hname ▸ hs')
        (List.mem_map.mpr ⟨entry, hentry, of_decide_eq_true heq⟩)
    rw [hsame, hsame'] at herased
    exact ⟨rfl, hpartners, herased, h.next⟩
  · exact ⟨rfl, hpartners, herased, h.next⟩

end Names

/-- **Runs of the same shape give out the same names.** -/
theorem SameShape.answers_eq [DecidableEq α] [DecidableEq β] {pairs : List (α × β)}
    {as : List (NameOp α)} {bs : List (NameOp β)} (hshape : SameShape pairs as bs)
    {s : Names α} {t : Names β} (h : s.Alike pairs t) (hs : s.Valid) (limit bound : Nat) :
    (s.run limit bound as).1 = (t.run limit bound bs).1 := by
  induction hshape generalizing s t with
  | nil => rfl
  | @use pairs a b as bs hpair _ ih =>
      obtain ⟨hanswer, hnext⟩ := h.use hpair limit bound
      have hrest := ih hnext (hs.use limit bound a)
      show NameAnswer.named (s.use limit bound a).1 :: _ =
        NameAnswer.named (t.use limit bound b).1 :: _
      rw [hanswer]
      exact congrArg _ hrest
  | @meet pairs a b as bs ha hb _ ih =>
      obtain ⟨hanswer, hnext⟩ := (h.meet ha hb).use List.mem_cons_self limit bound
      have hrest := ih hnext (hs.use limit bound a)
      show NameAnswer.named (s.use limit bound a).1 :: _ =
        NameAnswer.named (t.use limit bound b).1 :: _
      rw [hanswer]
      exact congrArg _ hrest
  | @close pairs a b as bs hpair _ ih =>
      obtain ⟨hanswer, hnext⟩ := h.close hs hpair
      have hrest := ih hnext (hs.close a)
      show NameAnswer.closed (s.close a).1 :: _ = NameAnswer.closed (t.close b).1 :: _
      rw [hanswer]
      exact congrArg _ hrest

end RunD
