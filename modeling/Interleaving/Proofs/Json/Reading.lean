import Interleaving.Json.Value
import Interleaving.Proofs.Json.Cutting

/-!
# Reading written values

A value is read back from its text (`ofText?_text`), if its numbers are numbers and its strings
can stand between quotes.  The proof goes through the tokens: those that `written` gives are
legal and separated, so they are cut from the text again, and the machine that reads them
(`Need.read?`) arrives at the value with the containers around it as they were.
-/

namespace Interleaving.Json

/-- Each number of the value is a number, and each string can stand between quotes. -/
inductive IsLegal : Json → Prop
  | null : IsLegal .null
  | bool (value : Bool) : IsLegal (.bool value)
  | number {literal : List Char} (h : Number.isNumber literal = true) : IsLegal (.number literal)
  | string {raw : List Char} (h : Quoted.isQuotable raw = true) : IsLegal (.string raw)
  | array {elements : List Json} (h : ∀ v ∈ elements, IsLegal v) : IsLegal (.array elements)
  | object {members : List (List Char × Json)}
      (hkeys : ∀ member ∈ members, Quoted.isQuotable member.1 = true)
      (hvalues : ∀ member ∈ members, IsLegal member.2) : IsLegal (.object members)

/-! ### The tokens of a value -/

mutual

theorem IsLegal.of_mem_written : ∀ {v : Json}, v.IsLegal → ∀ t ∈ v.written, t.IsLegal
  | .null, _ => by simp [written, Token.IsLegal]
  | .bool _, _ => by simp [written, Token.IsLegal]
  | .number _, .number h => by simpa [written, Token.IsLegal] using h
  | .string _, .string h => by simpa [written, Token.IsLegal] using h
  | .array [], _ => by simp [written, Token.IsLegal]
  | .array (v :: rest), .array h => by
      obtain ⟨hv, hrest⟩ := List.forall_mem_cons.1 h
      refine List.forall_mem_cons.2 ⟨trivial, List.forall_mem_append.2 ⟨?_, ?_⟩⟩
      · exact hv.of_mem_written
      · exact isLegal_of_mem_moreElements hrest
  | .object [], _ => by simp [written, Token.IsLegal]
  | .object ((key, v) :: rest), .object hkeys hvalues => by
      obtain ⟨hkey, hkeys⟩ := List.forall_mem_cons.1 hkeys
      obtain ⟨hv, hvalues⟩ := List.forall_mem_cons.1 hvalues
      refine List.forall_mem_cons.2 ⟨trivial, List.forall_mem_cons.2 ⟨hkey,
        List.forall_mem_cons.2 ⟨trivial, List.forall_mem_append.2 ⟨?_, ?_⟩⟩⟩⟩
      · exact hv.of_mem_written
      · exact isLegal_of_mem_moreMembers hkeys hvalues

theorem isLegal_of_mem_moreElements : ∀ {elements : List Json},
    (∀ v ∈ elements, v.IsLegal) → ∀ t ∈ moreElements elements, t.IsLegal
  | [], _ => by simp [moreElements, Token.IsLegal]
  | v :: rest, h => by
      obtain ⟨hv, hrest⟩ := List.forall_mem_cons.1 h
      refine List.forall_mem_cons.2 ⟨trivial, List.forall_mem_append.2 ⟨?_, ?_⟩⟩
      · exact hv.of_mem_written
      · exact isLegal_of_mem_moreElements hrest

theorem isLegal_of_mem_moreMembers : ∀ {members : List (List Char × Json)},
    (∀ member ∈ members, Quoted.isQuotable member.1 = true) →
    (∀ member ∈ members, member.2.IsLegal) → ∀ t ∈ moreMembers members, t.IsLegal
  | [], _, _ => by simp [moreMembers, Token.IsLegal]
  | (key, v) :: rest, hkeys, hvalues => by
      obtain ⟨hkey, hkeys⟩ := List.forall_mem_cons.1 hkeys
      obtain ⟨hv, hvalues⟩ := List.forall_mem_cons.1 hvalues
      refine List.forall_mem_cons.2 ⟨trivial, List.forall_mem_cons.2 ⟨hkey,
        List.forall_mem_cons.2 ⟨trivial, List.forall_mem_append.2 ⟨?_, ?_⟩⟩⟩⟩
      · exact hv.of_mem_written
      · exact isLegal_of_mem_moreMembers hkeys hvalues

end

/-- What comes after a value in a container starts with a mark. -/
theorem isWord_of_head?_moreElements (elements : List Json) :
    ∀ t ∈ (moreElements elements).head?, t.isWord = false := by
  cases elements <;> simp [moreElements, Token.isWord]

theorem isWord_of_head?_moreMembers (members : List (List Char × Json)) :
    ∀ t ∈ (moreMembers members).head?, t.isWord = false := by
  cases members <;> simp [moreMembers, Token.isWord]

mutual

/-- The tokens of a value need nothing between them. -/
theorem separated_written : ∀ v : Json, Token.Separated v.written
  | .null | .bool _ | .number _ | .string _ => List.isChain_singleton _
  | .array [] | .object [] => by simp [written, Token.Separated, Token.isWord]
  | .array (v :: rest) =>
      .cons_of_not_word rfl <|
        (separated_written v).append (separated_moreElements rest)
          (isWord_of_head?_moreElements rest)
  | .object ((_, v) :: rest) =>
      .cons_of_not_word rfl <| .cons_of_not_word rfl <| .cons_of_not_word rfl <|
        (separated_written v).append (separated_moreMembers rest)
          (isWord_of_head?_moreMembers rest)

theorem separated_moreElements : ∀ elements : List Json, Token.Separated (moreElements elements)
  | [] => List.isChain_singleton _
  | v :: rest =>
      .cons_of_not_word rfl <|
        (separated_written v).append (separated_moreElements rest)
          (isWord_of_head?_moreElements rest)

theorem separated_moreMembers :
    ∀ members : List (List Char × Json), Token.Separated (moreMembers members)
  | [] => List.isChain_singleton _
  | (_, v) :: rest =>
      .cons_of_not_word rfl <| .cons_of_not_word rfl <| .cons_of_not_word rfl <|
        (separated_written v).append (separated_moreMembers rest)
          (isWord_of_head?_moreMembers rest)

end

/-! ### The machine -/

namespace Need

/-- The first token of a value closes no array. -/
theorem read?_elementOrClose (frames : List Frame) (v : Json) (rest : List Token) :
    read? .elementOrClose frames (v.written ++ rest) =
      read? .value (.element [] :: frames) (v.written ++ rest) := by
  cases v with
  | array elements => cases elements <;> rfl
  | object members => cases members <;> rfl
  | _ => rfl

mutual

/-- Reading the tokens of a value finishes the value. -/
theorem read?_written (frames : List Frame) : ∀ (v : Json) (rest : List Token),
    read? .value frames (v.written ++ rest) = read? (.follow v) frames rest
  | .null, _ | .bool _, _ | .number _, _ | .string _, _ | .array [], _ | .object [], _ => rfl
  | .array (v :: elements), rest => by
      show read? .elementOrClose frames ((v.written ++ moreElements elements) ++ rest) = _
      rw [List.append_assoc, read?_elementOrClose, read?_written _ v, read?_moreElements]
      rfl
  | .object ((k, v) :: members), rest => by
      show read? .value (.member [] k :: frames) ((v.written ++ moreMembers members) ++ rest) = _
      rw [List.append_assoc, read?_written _ v, read?_moreMembers]
      rfl

/-- In an array the tokens after an element finish the array. -/
theorem read?_moreElements (frames : List Frame) :
    ∀ (elements : List Json) (v : Json) (done : List Json) (rest : List Token),
      read? (.follow v) (.element done :: frames) (moreElements elements ++ rest) =
        read? (.follow (.array (done.reverse ++ v :: elements))) frames rest
  | [], v, done, rest => by
      show read? (.follow (.array (v :: done).reverse)) frames rest = _
      rw [List.reverse_cons]
  | w :: elements, v, done, rest => by
      show read? .value (.element (v :: done) :: frames)
        ((w.written ++ moreElements elements) ++ rest) = _
      rw [List.append_assoc, read?_written _ w, read?_moreElements, List.reverse_cons,
        List.append_assoc, List.singleton_append]

/-- In an object the tokens after a member finish the object. -/
theorem read?_moreMembers (frames : List Frame) :
    ∀ (members : List (List Char × Json)) (k : List Char) (v : Json)
      (done : List (List Char × Json)) (rest : List Token),
      read? (.follow v) (.member done k :: frames) (moreMembers members ++ rest) =
        read? (.follow (.object (done.reverse ++ (k, v) :: members))) frames rest
  | [], k, v, done, rest => by
      show read? (.follow (.object ((k, v) :: done).reverse)) frames rest = _
      rw [List.reverse_cons]
  | (k', w) :: members, k, v, done, rest => by
      show read? .value (.member ((k, v) :: done) k' :: frames)
        ((w.written ++ moreMembers members) ++ rest) = _
      rw [List.append_assoc, read?_written _ w, read?_moreMembers, List.reverse_cons,
        List.append_assoc, List.singleton_append]

end

end Need

/-! ### Texts -/

/-- The text of a legal value holds the value and nothing else. -/
theorem first?_text {v : Json} (h : v.IsLegal) : first? v.text = some (v, []) := by
  unfold first? text
  rw [String.toList_ofList, tokens_flatMap_chars h.of_mem_written (separated_written v),
    ← List.append_nil v.written, Need.read?_written]
  rfl

theorem ofText?_text {v : Json} (h : v.IsLegal) : ofText? v.text = some v := by
  unfold ofText?
  rw [first?_text h]

end Interleaving.Json
