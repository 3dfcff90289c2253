import Interleaving.State
import Mathlib.Data.List.TakeWhile

/-!
# What a printed state tells

A state is printed as its executed transitions, one behind the other with nothing between them.
The end of a number is told by the character behind it, so the label of a transition can be split
off from what follows it in one way only (`Label.selfDelimiting_printed`).  So can a list of
labels, up to the bracket that closes it (`SelfDelimiting.closedList`).  The text of a state
therefore tells which transitions are executed, in the order in which they are listed, and tells
nothing else (`State.text_eq_iff`).
-/

namespace Interleaving

/-- What is written can be split off from whatever follows it in one way only. -/
def SelfDelimiting {α : Type} (write : α → List Char) : Prop :=
  ∀ ⦃x y : α⦄ ⦃rest rest' : List Char⦄, write x ++ rest = write y ++ rest' → x = y ∧ rest = rest'

theorem SelfDelimiting.injective {α : Type} {write : α → List Char} (h : SelfDelimiting write) :
    Function.Injective write := by
  intro x y heq
  exact (h (congrArg (· ++ []) heq)).1

/-! ### Numbers -/

/-- The digits of a number, and a character that closes them. -/
def closedNumeral (mark : Char) (n : Nat) : List Char := Nat.toDigits 10 n ++ [mark]

theorem takeWhile_closedNumeral {mark : Char} (hmark : mark.isDigit = false) (n : Nat)
    (rest : List Char) :
    (closedNumeral mark n ++ rest).takeWhile Char.isDigit = Nat.toDigits 10 n := by
  have hdigits : ∀ c ∈ Nat.toDigits 10 n, c.isDigit = true :=
    fun c hc => Nat.isDigit_of_mem_toDigits (by decide) (by decide) hc
  unfold closedNumeral
  rw [List.append_assoc, List.takeWhile_append_of_pos hdigits, List.singleton_append,
    List.takeWhile_cons_of_neg (by simp [hmark]), List.append_nil]

/-- A number ends at the first character that is no digit. -/
theorem selfDelimiting_closedNumeral {mark : Char} (hmark : mark.isDigit = false) :
    SelfDelimiting (closedNumeral mark) := by
  intro n n' rest rest' heq
  have hdigits : Nat.toDigits 10 n = Nat.toDigits 10 n' := by
    rw [← takeWhile_closedNumeral hmark n rest, heq, takeWhile_closedNumeral hmark]
  have hn : n = n' := by
    rw [← Nat.ofDigitChars_ten_toDigits (n := n), hdigits, Nat.ofDigitChars_ten_toDigits]
  subst hn
  exact ⟨rfl, List.append_cancel_left heq⟩

/-! ### Lists -/

/-- Pieces one behind the other, and a character that closes them. -/
def closedList {α : Type} (write : α → List Char) (mark : Char) (xs : List α) : List Char :=
  xs.flatMap write ++ [mark]

theorem closedList_nil_append {α : Type} (write : α → List Char) (mark : Char) (rest : List Char) :
    closedList write mark [] ++ rest = mark :: rest := rfl

theorem closedList_cons_append {α : Type} (write : α → List Char) (mark : Char) (x : α)
    (xs : List α) (rest : List Char) :
    closedList write mark (x :: xs) ++ rest = write x ++ (closedList write mark xs ++ rest) := by
  simp [closedList]

/-- Pieces are split off one by one, up to a character with which none of them starts. -/
theorem SelfDelimiting.closedList {α : Type} {write : α → List Char} (h : SelfDelimiting write)
    {mark : Char} (hstart : ∀ x rest rest', write x ++ rest ≠ mark :: rest') :
    SelfDelimiting (closedList write mark) := by
  intro xs
  induction xs with
  | nil =>
      intro ys rest rest' heq
      cases ys with
      | nil => exact ⟨rfl, List.append_cancel_left heq⟩
      | cons y ys =>
          rw [closedList_nil_append, closedList_cons_append] at heq
          exact absurd heq.symm (hstart y _ _)
  | cons x xs ih =>
      intro ys rest rest' heq
      cases ys with
      | nil =>
          rw [closedList_nil_append, closedList_cons_append] at heq
          exact absurd heq (hstart x _ _)
      | cons y ys =>
          rw [closedList_cons_append, closedList_cons_append] at heq
          obtain ⟨rfl, htail⟩ := h heq
          obtain ⟨rfl, hrest⟩ := ih htail
          exact ⟨rfl, hrest⟩

/-! ### Labels and states -/

namespace Label

/-- What the text of a state says about one executed transition. -/
def printed (l : Label) : List Char := (l.text ++ " is executed").toList

theorem printed_append (position : Nat) (owner : ActorId) (rest : List Char) :
    printed ⟨position, owner⟩ ++ rest = 't' :: (closedNumeral '-' position ++
      'p' :: (closedNumeral ' ' owner ++ ("is executed".toList ++ rest))) := by
  simp [printed, text, toString, closedNumeral]

/-- The position ends at the hyphen and the owner at the blank. -/
theorem selfDelimiting_printed : SelfDelimiting printed := by
  rintro ⟨position, owner⟩ ⟨position', owner'⟩ rest rest' heq
  rw [printed_append, printed_append, List.cons.injEq] at heq
  obtain ⟨rfl, hafterPosition⟩ := selfDelimiting_closedNumeral (by decide) heq.2
  rw [List.cons.injEq] at hafterPosition
  obtain ⟨rfl, hafterOwner⟩ := selfDelimiting_closedNumeral (by decide) hafterPosition.2
  exact ⟨rfl, List.append_cancel_left hafterOwner⟩

end Label

namespace State

theorem toList_text (s : State) : s.text.toList =
    "s = (".toList ++ closedList Label.printed ')' (s.executed.map Transition.label) := by
  simp [text, closedList, Label.printed, List.flatMap_map, String.toList_join]

/-- **The text is unambiguous.**  Two states are printed alike iff the same transitions are
executed in them, listed in the same order. -/
theorem text_eq_iff (s s' : State) :
    s.text = s'.text ↔ s.executed.map Transition.label = s'.executed.map Transition.label := by
  have hstart : ∀ (l : Label) (rest rest' : List Char), l.printed ++ rest ≠ ')' :: rest' := by
    rintro ⟨position, owner⟩ rest rest' heq
    rw [Label.printed_append, List.cons.injEq] at heq
    exact absurd heq.1 (by decide)
  have hinjective := (Label.selfDelimiting_printed.closedList hstart).injective
  rw [← String.toList_inj, toList_text, toList_text, List.append_cancel_left_eq, hinjective.eq_iff]

/-- Nothing stands between one transition and the next. -/
example : (ofParts [⟨1, [⟨⟨1, 11⟩, .lock 0, true⟩, ⟨⟨11, 1⟩, .lock 0, true⟩]⟩] []).text =
    "s = (t1-p11 is executedt11-p1 is executed)" := by decide

end State

end Interleaving
