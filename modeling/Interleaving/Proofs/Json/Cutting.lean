import Interleaving.Proofs.Json.Numeral
import Mathlib.Data.List.Chain

/-!
# Cutting written tokens

Tokens that are written one after another are cut from the text again, if each of them is
legal and no two words stand side by side (`tokens_flatMap_chars`): a word ends only where
something else begins.
-/

namespace Interleaving.Json

namespace Token

/-- The token has a written form of its own. -/
def IsLegal : Token → Prop
  | number literal => Number.isNumber literal = true
  | string raw => Quoted.isQuotable raw = true
  | illegal => False
  | _ => True

/-- Whether the token is written as a bare word. -/
def isWord : Token → Bool
  | null | bool _ | number _ => true
  | _ => false

/-- No two words stand side by side. -/
def Separated (ts : List Token) : Prop :=
  ts.IsChain fun t u => t.isWord = true → u.isWord = false

theorem Separated.cons_of_not_word {t : Token} {ts : List Token} (ht : t.isWord = false)
    (hts : Separated ts) : Separated (t :: ts) :=
  List.isChain_cons.2 ⟨fun _ _ hword => absurd hword (by rw [ht]; decide), hts⟩

theorem Separated.append {ts us : List Token} (hts : Separated ts) (hus : Separated us)
    (hhead : ∀ u ∈ us.head?, u.isWord = false) : Separated (ts ++ us) :=
  List.IsChain.append hts hus fun _ _ u hu _ => hhead u hu

theorem ofWord_chars {t : Token} (hlegal : t.IsLegal) (hword : t.isWord = true) :
    ofWord t.chars = t := by
  cases t with
  | null => rfl
  | bool value => cases value <;> rfl
  | number literal =>
      -- No word that stands for something else is a number.
      have hne : ∀ word, Number.isNumber word = false → literal ≠ word := by
        rintro word hnot rfl
        rw [hlegal] at hnot
        cases hnot
      show ofWord literal = number literal
      have hnumber : Number.isNumber literal = true := hlegal
      unfold ofWord
      rw [if_neg (hne null.chars (by decide)), if_neg (hne (bool true).chars (by decide)),
        if_neg (hne (bool false).chars (by decide)), if_pos hnumber]
  | _ => cases hword

theorem isWordChar_of_mem_chars {t : Token} (hlegal : t.IsLegal) (hword : t.isWord = true) :
    ∀ c ∈ t.chars, isWordChar c = true := by
  cases t with
  | null => exact List.all_eq_true.1 (by decide)
  | bool value => cases value <;> exact List.all_eq_true.1 (by decide)
  | number literal => exact Number.isWordChar_of_isNumber hlegal
  | _ => cases hword

theorem chars_ne_nil {t : Token} (hlegal : t.IsLegal) : t.chars ≠ [] := by
  cases t with
  | bool value => cases value <;> simp [chars]
  | number literal => exact Number.ne_nil_of_isNumber hlegal
  | illegal => exact hlegal.elim
  | _ => simp [chars]

/-- What is no word starts with a character that ends a word. -/
theorem exists_chars_of_not_word {t : Token} (hlegal : t.IsLegal) (hword : t.isWord = false) :
    ∃ c rest, t.chars = c :: rest ∧ isWordChar c = false := by
  cases t with
  | null | bool | number => cases hword
  | illegal => exact hlegal.elim
  | _ => exact ⟨_, _, rfl, by decide⟩

end Token

namespace Lexer

/-! ### Words -/

theorem enter_of_isWordChar {c : Char} (h : isWordChar c = true) (finished : List Token) :
    enter c finished = ⟨.word [c], finished⟩ := by
  have hne : ∀ d, isWordChar d = false → c ≠ d := by
    rintro d hnot rfl
    rw [h] at hnot
    cases hnot
  have hblank : isBlank c = false := by
    simp [isBlank, hne ' ' (by decide), hne '\t' (by decide), hne '\n' (by decide),
      hne '\r' (by decide)]
  unfold enter
  rw [hblank, if_neg (by decide), if_neg (hne '"' (by decide)), if_pos h]

theorem foldl_feed_word {cs : List Char} (h : ∀ c ∈ cs, isWordChar c = true)
    (reversed : List Char) (finished : List Token) :
    cs.foldl feed ⟨.word reversed, finished⟩ = ⟨.word (cs.reverse ++ reversed), finished⟩ := by
  induction cs generalizing reversed with
  | nil => rfl
  | cons c rest ih =>
      obtain ⟨hc, hrest⟩ := List.forall_mem_cons.1 h
      have hfeed : feed ⟨.word reversed, finished⟩ c = ⟨.word (c :: reversed), finished⟩ :=
        if_pos hc
      rw [List.foldl_cons, hfeed, ih hrest, List.reverse_cons, List.append_assoc,
        List.singleton_append]

theorem foldl_feed_of_word {t : Token} (hlegal : t.IsLegal) (hword : t.isWord = true)
    (finished : List Token) :
    t.chars.foldl feed ⟨.between, finished⟩ = ⟨.word t.chars.reverse, finished⟩ := by
  have hchars := Token.isWordChar_of_mem_chars hlegal hword
  obtain ⟨c, rest, hcons⟩ := List.exists_cons_of_ne_nil (Token.chars_ne_nil hlegal)
  rw [hcons] at hchars ⊢
  obtain ⟨hc, hrest⟩ := List.forall_mem_cons.1 hchars
  have hfeed : feed ⟨.between, finished⟩ c = ⟨.word [c], finished⟩ := enter_of_isWordChar hc _
  rw [List.foldl_cons, hfeed, foldl_feed_word hrest, List.reverse_cons]

/-- A character that is in no word finishes the word before it. -/
theorem feed_word {c : Char} (h : isWordChar c = false) (reversed : List Char)
    (finished : List Token) :
    feed ⟨.word reversed, finished⟩ c =
      feed ⟨.between, Token.ofWord reversed.reverse :: finished⟩ c :=
  if_neg (by rw [h]; decide)

/-! ### Quoted text -/

theorem feed_quoted {c : Char} (hquote : c ≠ '"') (hescape : c ≠ '\\') (reversed : List Char)
    (finished : List Token) :
    feed ⟨.quoted reversed, finished⟩ c = ⟨.quoted (c :: reversed), finished⟩ := by
  simp [feed, hquote, hescape]

theorem feed_quoted_escape (reversed : List Char) (finished : List Token) :
    feed ⟨.quoted reversed, finished⟩ '\\' = ⟨.escaped ('\\' :: reversed), finished⟩ := by
  simp [feed]

theorem feed_escaped (c : Char) (reversed : List Char) (finished : List Token) :
    feed ⟨.escaped reversed, finished⟩ c = ⟨.quoted (c :: reversed), finished⟩ := rfl

theorem feed_quoted_of_hexDigit? {c : Char} {n : Nat} (h : Quoted.hexDigit? c = some n)
    (reversed : List Char) (finished : List Token) :
    feed ⟨.quoted reversed, finished⟩ c = ⟨.quoted (c :: reversed), finished⟩ := by
  refine feed_quoted ?_ ?_ reversed finished
  · rintro rfl
    cases h
  · rintro rfl
    cases h

/-- Text that may stand between quotes does not end before its last character. -/
theorem foldl_feed_quoted {raw : List Char} {codes : List Nat}
    (h : Quoted.codes? raw = some codes) (reversed : List Char) (finished : List Token) :
    raw.foldl feed ⟨.quoted reversed, finished⟩ =
      ⟨.quoted (raw.reverse ++ reversed), finished⟩ := by
  fun_induction Quoted.codes? raw generalizing reversed codes with
  | case1 => rfl
  | case2 a b c d rest ih =>
      -- Four hexadecimal digits after the escape are taken one by one.
      obtain ⟨code, hdigits, h⟩ := Option.bind_eq_some_iff.1 h
      obtain ⟨codes', hrest, -⟩ := Option.bind_eq_some_iff.1 h
      obtain ⟨m, ha, hdigits⟩ := Option.bind_eq_some_iff.1 hdigits
      obtain ⟨n, hb, hdigits⟩ := Option.bind_eq_some_iff.1 hdigits
      obtain ⟨p, hc, hdigits⟩ := Option.bind_eq_some_iff.1 hdigits
      obtain ⟨q, hd, -⟩ := Option.bind_eq_some_iff.1 hdigits
      simp only [List.foldl_cons, feed_quoted_escape, feed_escaped, feed_quoted_of_hexDigit? ha,
        feed_quoted_of_hexDigit? hb, feed_quoted_of_hexDigit? hc, feed_quoted_of_hexDigit? hd,
        ih hrest, List.reverse_cons, List.append_assoc, List.cons_append, List.nil_append]
  | case3 c rest _ ih =>
      obtain ⟨code, -, h⟩ := Option.bind_eq_some_iff.1 h
      obtain ⟨codes', hrest, -⟩ := Option.bind_eq_some_iff.1 h
      simp only [List.foldl_cons, feed_quoted_escape, feed_escaped, ih hrest, List.reverse_cons,
        List.append_assoc, List.cons_append, List.nil_append]
  | case4 c rest _ _ hplain ih =>
      obtain ⟨codes', hrest, -⟩ := Option.map_eq_some_iff.1 h
      simp only [Quoted.isPlain, Bool.and_eq_true, decide_eq_true_eq] at hplain
      rw [List.foldl_cons, feed_quoted hplain.1.1 hplain.1.2, ih hrest, List.reverse_cons,
        List.append_assoc, List.singleton_append]
  | case5 => cases h

/-! ### Tokens -/

theorem foldl_feed_of_not_word {t : Token} (hlegal : t.IsLegal) (hword : t.isWord = false)
    (finished : List Token) :
    t.chars.foldl feed ⟨.between, finished⟩ = ⟨.between, t :: finished⟩ := by
  cases t with
  | null | bool | number => cases hword
  | illegal => exact hlegal.elim
  | string raw =>
      have hquotable : Quoted.isQuotable raw = true := hlegal
      obtain ⟨codes, hcodes⟩ := Option.isSome_iff_exists.1 hquotable
      have hclosed : Token.ofQuoted raw = .string raw := if_pos hquotable
      have hopened : feed ⟨.between, finished⟩ '"' = ⟨.quoted [], finished⟩ := rfl
      show (('"' :: (raw ++ ['"'])).foldl feed _) = _
      rw [List.foldl_cons, hopened, List.foldl_append, foldl_feed_quoted hcodes]
      simp [feed, hclosed]
  | _ => rfl

/-- What follows a word sees the word finished. -/
theorem finish_foldl_feed_word {t : Token} (hlegal : t.IsLegal) (hword : t.isWord = true)
    {ts : List Token} (hts : ∀ u ∈ ts, u.IsLegal)
    (hseparated : Token.Separated (t :: ts)) (finished : List Token) :
    ((ts.flatMap Token.chars).foldl feed ⟨.word t.chars.reverse, finished⟩).finish =
      ((ts.flatMap Token.chars).foldl feed ⟨.between, t :: finished⟩).finish := by
  have hofWord : Token.ofWord t.chars.reverse.reverse = t := by
    rw [List.reverse_reverse, Token.ofWord_chars hlegal hword]
  cases ts with
  | nil =>
      show (Token.ofWord t.chars.reverse.reverse :: finished).reverse = _
      rw [hofWord]
      rfl
  | cons u rest =>
      have hu : u.isWord = false := (List.isChain_cons_cons.1 hseparated).1 hword
      obtain ⟨c, more, hchars, hc⟩ :=
        Token.exists_chars_of_not_word (hts u List.mem_cons_self) hu
      rw [List.flatMap_cons, hchars, List.cons_append, List.foldl_cons, List.foldl_cons,
        feed_word hc, hofWord]

/-- The machine finds the tokens that were written, after those that it has found before. -/
theorem finish_foldl_feed {ts : List Token} (hts : ∀ t ∈ ts, t.IsLegal)
    (hseparated : Token.Separated ts) (finished : List Token) :
    ((ts.flatMap Token.chars).foldl feed ⟨.between, finished⟩).finish =
      finished.reverse ++ ts := by
  induction ts generalizing finished with
  | nil => simp [finish]
  | cons t ts ih =>
      obtain ⟨hlegal, hrest⟩ := List.forall_mem_cons.1 hts
      have hfound := ih hrest hseparated.of_cons (t :: finished)
      rw [List.reverse_cons, List.append_assoc, List.singleton_append] at hfound
      rw [List.flatMap_cons, List.foldl_append, ← hfound]
      cases hword : t.isWord with
      | true =>
          rw [foldl_feed_of_word hlegal hword,
            finish_foldl_feed_word hlegal hword hrest hseparated]
      | false => rw [foldl_feed_of_not_word hlegal hword]

end Lexer

/-- Legal tokens are cut from the text in which they are written one after another. -/
theorem tokens_flatMap_chars {ts : List Token} (hts : ∀ t ∈ ts, t.IsLegal)
    (hseparated : Token.Separated ts) : tokens (ts.flatMap Token.chars) = ts :=
  Lexer.finish_foldl_feed hts hseparated []

end Interleaving.Json
