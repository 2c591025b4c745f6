/-
Two ways to count the different numbers of a list.

In a bitmap each number has a bit, and as many bits are set as there are
different numbers (`members`).  Bits that are added to one word add as many
members as bits (`card_members_set`).  In a sorted list equal numbers stand side
by side, so an item that equals the one before it is a repetition
(`neighbours_add_card`).
-/
import Mathlib.Data.Finset.Card
import Mathlib.Data.Finset.Range
import Mathlib.Data.Finset.Image
import Mathlib.Data.Nat.Bitwise

namespace RunD

/-! ### Bits of a word -/

/-- The bits that are set in a word. -/
def bitCount (word : UInt32) : Nat := (List.range 32).countP fun bit => word.toNat.testBit bit

/-- `std::popcount`. -/
def popcount (word : UInt32) : UInt32 := UInt32.ofNat (bitCount word)

theorem bitCount_le (word : UInt32) : bitCount word ≤ 32 := by
  have hle := List.countP_le_length (p := fun bit => word.toNat.testBit bit) (l := List.range 32)
  rwa [List.length_range] at hle

theorem popcount_toNat (word : UInt32) : (popcount word).toNat = bitCount word := by
  have hle := bitCount_le word
  exact UInt32.toNat_ofNat_of_lt' (by show _ < 4294967296; omega)

theorem bitCount_eq_card (word : UInt32) :
    bitCount word = ((Finset.range 32).filter fun bit => word.toNat.testBit bit = true).card := by
  rw [bitCount, List.countP_eq_length_filter,
    ← List.toFinset_card_of_nodup (List.nodup_range.filter _)]
  congr 1
  ext bit
  simp

/-! ### Bitmaps -/

/-- The numbers whose bits are set. -/
def members (words : List UInt32) : Finset Nat :=
  (Finset.range (32 * words.length)).filter fun number =>
    (words.getD (number / 32) 0).toNat.testBit (number % 32) = true

theorem mem_members {words : List UInt32} {number : Nat} :
    number ∈ members words ↔ (words.getD (number / 32) 0).toNat.testBit (number % 32) = true := by
  rw [members, Finset.mem_filter, Finset.mem_range, and_iff_right_iff_imp]
  intro hbit
  by_contra hout
  rw [List.getD_eq_getElem?_getD, List.getElem?_eq_none (by omega)] at hbit
  simp at hbit

/-- Words that are all zero have no members. -/
theorem members_zero {words : List UInt32} (h : ∀ word ∈ words, word = 0) : members words = ∅ := by
  apply Finset.eq_empty_of_forall_notMem
  intro number hmem
  rw [mem_members, List.getD_eq_getElem?_getD] at hmem
  cases hword : words[number / 32]? with
  | none =>
      rw [hword] at hmem
      simp at hmem
  | some word =>
      rw [hword, h word (List.mem_of_getElem? hword)] at hmem
      simp at hmem

/-- One word decides about its own 32 numbers. -/
theorem mem_members_set {words : List UInt32} {place : Nat} (hplace : place < words.length)
    {word : UInt32} {number : Nat} :
    number ∈ members (words.set place word) ↔
      if number / 32 = place then word.toNat.testBit (number % 32) = true
      else number ∈ members words := by
  rw [mem_members, List.getD_eq_getElem?_getD]
  by_cases hsame : number / 32 = place
  · rw [if_pos hsame, hsame, List.getElem?_set_self hplace]
    rfl
  · rw [if_neg hsame, List.getElem?_set_ne (Ne.symm hsame), mem_members,
      List.getD_eq_getElem?_getD]

/-- Writing back the word that is there changes nothing. -/
theorem members_set_same {words : List UInt32} {place : Nat} {word : UInt32}
    (hword : words[place]? = some word) : members (words.set place word) = members words := by
  obtain ⟨hplace, rfl⟩ := List.getElem?_eq_some_iff.mp hword
  rw [List.set_getElem_self]

/-- **Bits that are added to a word add as many members.** -/
theorem card_members_set {words : List UInt32} {place : Nat} {old new : UInt32}
    (hold : words[place]? = some old)
    (hkeep : ∀ bit, old.toNat.testBit bit = true → new.toNat.testBit bit = true) :
    (members (words.set place new)).card = (members words).card + bitCount (new ^^^ old) := by
  have hplace : place < words.length := (List.getElem?_eq_some_iff.mp hold).1
  -- the added numbers are those of the bits in which the two words differ
  have hunion : members (words.set place new) = members words ∪
      ((Finset.range 32).filter fun bit => (new ^^^ old).toNat.testBit bit = true).image
        (fun bit => 32 * place + bit) := by
    ext number
    rw [mem_members_set hplace, Finset.mem_union, Finset.mem_image]
    by_cases hsame : number / 32 = place
    · rw [if_pos hsame, mem_members, hsame, List.getD_eq_getElem?_getD, hold, Option.getD_some]
      constructor
      · intro hnew
        by_cases hwas : old.toNat.testBit (number % 32) = true
        · exact Or.inl hwas
        · right
          refine ⟨number % 32, ?_, by omega⟩
          rw [Finset.mem_filter, Finset.mem_range, UInt32.toNat_xor, Nat.testBit_xor, hnew]
          exact ⟨by omega, by simpa using hwas⟩
      · rintro (hwas | ⟨bit, hbit, heq⟩)
        · exact hkeep _ hwas
        · rw [Finset.mem_filter, Finset.mem_range, UInt32.toNat_xor, Nat.testBit_xor] at hbit
          have hnumber : number % 32 = bit := by omega
          rw [hnumber]
          by_contra hno
          have hwas : old.toNat.testBit bit = true := by
            have hxor := hbit.2
            rw [Bool.eq_false_of_not_eq_true hno] at hxor
            simpa using hxor
          exact hno (hkeep _ hwas)
    · rw [if_neg hsame]
      constructor
      · exact Or.inl
      · rintro (hmem | ⟨bit, hbit, heq⟩)
        · exact hmem
        · rw [Finset.mem_filter, Finset.mem_range] at hbit
          omega
  rw [hunion, Finset.card_union_of_disjoint, Finset.card_image_of_injective, bitCount_eq_card]
  · intro a b hab
    dsimp only at hab
    omega
  · rw [Finset.disjoint_left]
    intro number hmem himage
    obtain ⟨bit, hbit, rfl⟩ := Finset.mem_image.mp himage
    rw [Finset.mem_filter, Finset.mem_range, UInt32.toNat_xor, Nat.testBit_xor] at hbit
    rw [mem_members, show (32 * place + bit) / 32 = place by omega,
      show (32 * place + bit) % 32 = bit by omega, List.getD_eq_getElem?_getD, hold,
      Option.getD_some] at hmem
    have hxor := hbit.2
    rw [hmem, hkeep _ hmem] at hxor
    simp at hxor

/-! ### Neighbours in a sorted list -/

/-- The items that equal the one before them. -/
def neighbours : List Nat → Nat
  | [] => 0
  | [_] => 0
  | first :: second :: rest => neighbours (second :: rest) + if first = second then 1 else 0

/-- **In a sorted list the repetitions and the different numbers make up the length.** -/
theorem neighbours_add_card {list : List Nat} (hsorted : list.Pairwise (· ≤ ·)) :
    neighbours list + list.toFinset.card = list.length := by
  induction list with
  | nil => rfl
  | cons first rest ih =>
      cases rest with
      | nil => rfl
      | cons second rest =>
          have hrest := ih hsorted.of_cons
          rw [neighbours, List.toFinset_cons, List.length_cons]
          by_cases hsame : first = second
          · have hmem : first ∈ (second :: rest).toFinset := by simp [hsame]
            rw [if_pos hsame, Finset.insert_eq_of_mem hmem]
            omega
          · have hnew : first ∉ (second :: rest).toFinset := by
              intro hmem
              have hle := List.rel_of_pairwise_cons hsorted (List.mem_cons_self ..)
              rcases List.mem_cons.mp (List.mem_toFinset.mp hmem) with h | h
              · exact hsame h
              · have := List.rel_of_pairwise_cons hsorted.of_cons h
                omega
            rw [if_neg hsame, Finset.card_insert_of_notMem hnew]
            omega

/-- The neighbours of a list, one item further. -/
theorem neighbours_concat (list : List Nat) (last next : Nat) :
    neighbours (list ++ [last, next]) =
      neighbours (list ++ [last]) + if last = next then 1 else 0 := by
  induction list with
  | nil => rfl
  | cons first rest ih =>
      cases rest with
      | nil =>
          show neighbours [first, last, next] = neighbours [first, last] + _
          simp only [neighbours]
          omega
      | cons second rest =>
          show neighbours (first :: second :: (rest ++ [last, next])) =
            neighbours (first :: second :: (rest ++ [last])) + _
          rw [neighbours, neighbours]
          rw [List.cons_append, List.cons_append] at ih
          omega

end RunD
