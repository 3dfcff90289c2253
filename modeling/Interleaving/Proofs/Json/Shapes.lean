import Interleaving.Json.Shape
import Interleaving.Proofs.Json.Reading

/-!
# Shapes are read back

`Encodes read? v x` says that `v` is a legal value from which `x` is read.  Each shape in which
the program's types stand in JSON keeps this relation: numbers below the limit, names, records,
choices, lists and tables.
-/

namespace Interleaving.Json

variable {α β γ : Type}

/-- A legal value from which `x` is read. -/
structure Encodes (read? : Json → Option α) (v : Json) (x : α) : Prop where
  legal : v.IsLegal
  read : read? v = some x

/-- What a value encodes is read from its text. -/
theorem Encodes.ofText? {read? : Json → Option α} {v : Json} {x : α} (h : Encodes read? v x) :
    (ofText? v.text).bind read? = some x := by
  rw [ofText?_text h.legal, Option.bind_some, h.read]

theorem mapM_map_eq_some {write : α → β} {read? : β → Option γ} {g : α → γ} {xs : List α}
    (h : ∀ x ∈ xs, read? (write x) = some (g x)) :
    (xs.map write).mapM read? = some (xs.map g) := by
  induction xs with
  | nil => rfl
  | cons x rest ih =>
      obtain ⟨hx, hrest⟩ := List.forall_mem_cons.1 h
      rw [List.map_cons, List.mapM_cons, hx, ih hrest]
      rfl

/-! ### Names -/

namespace Quoted

theorem codes?_of_isPlain {cs : List Char} (h : ∀ c ∈ cs, isPlain c = true) :
    codes? cs = some (cs.map Char.toNat) := by
  induction cs with
  | nil => rfl
  | cons c rest ih =>
      obtain ⟨hc, hrest⟩ := List.forall_mem_cons.1 h
      have hescape : c ≠ '\\' := by
        rintro rfl
        cases hc
      unfold codes?
      split
      case h_1 heq => cases heq
      case h_2 heq => exact absurd (List.cons.inj heq).1 hescape
      case h_3 heq => exact absurd (List.cons.inj heq).1 hescape
      case h_4 heq =>
        obtain ⟨rfl, rfl⟩ := List.cons.inj heq
        rw [if_pos hc, ih hrest]
        rfl

/-- No character is half of another one. -/
theorem isHigh_or_isLow_toNat (c : Char) : isHigh c.toNat = false ∧ isLow c.toNat = false := by
  have hvalid : c.toNat < 0xD800 ∨ 0xDFFF < c.toNat ∧ c.toNat < 0x110000 := c.valid
  constructor
  · simp only [isHigh, Bool.and_eq_false_iff, decide_eq_false_iff_not]
    omega
  · simp only [isLow, Bool.and_eq_false_iff, decide_eq_false_iff_not]
    omega

theorem ofCodes?_map_toNat (cs : List Char) : ofCodes? (cs.map Char.toNat) = some cs := by
  induction cs with
  | nil => rfl
  | cons c rest ih =>
      obtain ⟨hhigh, hlow⟩ := isHigh_or_isLow_toNat c
      cases rest with
      | nil => simp [ofCodes?, hhigh, hlow]
      | cons d rest =>
          rw [List.map_cons] at ih
          simp [ofCodes?, hhigh, hlow, ih]

/-- Text without escapes stands for itself. -/
theorem decode?_of_isPlain {cs : List Char} (h : ∀ c ∈ cs, isPlain c = true) :
    decode? cs = some (String.ofList cs) := by
  unfold decode?
  rw [codes?_of_isPlain h, Option.bind_some, ofCodes?_map_toNat]
  rfl

theorem isQuotable_of_isPlain {cs : List Char} (h : ∀ c ∈ cs, isPlain c = true) :
    isQuotable cs = true := by
  unfold isQuotable
  rw [codes?_of_isPlain h]
  rfl

end Quoted

/-- The text is the same inside quotes. -/
def IsName (text : String) : Prop := ∀ c ∈ text.toList, Quoted.isPlain c = true

instance (text : String) : Decidable (IsName text) :=
  decidable_of_iff (text.toList.all Quoted.isPlain = true) List.all_eq_true

theorem IsName.decode? {text : String} (h : IsName text) :
    Quoted.decode? text.toList = some text := by
  rw [Quoted.decode?_of_isPlain h, String.ofList_toList]

theorem IsName.isQuotable {text : String} (h : IsName text) :
    Quoted.isQuotable text.toList = true :=
  Quoted.isQuotable_of_isPlain h

/-! ### Numbers -/

theorem isQuotable_digits (n : Nat) : Quoted.isQuotable (Number.digits n) = true := by
  refine Quoted.isQuotable_of_isPlain fun c hc => ?_
  have hdigit := Number.isDigit_of_mem_digits hc
  have hne : ∀ d : Char, d.isDigit = false → c ≠ d := by
    rintro d hnot rfl
    rw [hdigit] at hnot
    cases hnot
  have hlarge : 0x20 ≤ c.toNat := by
    have hge : 48 ≤ c.toNat := (Char.isDigit_iff_toNat.1 hdigit).1
    omega
  simp [Quoted.isPlain, hne '"' (by decide), hne '\\' (by decide), hlarge]

theorem isLegal_nat (n : Nat) : (nat n).IsLegal :=
  .number (Number.isNumber_of_isDecimal (Number.isDecimal_digits n))

theorem encodes_nat {n : Nat} (h : n < Number.limit) : Encodes nat? (nat n) n :=
  ⟨isLegal_nat n, Number.natural?_digits h⟩

theorem encodes_optionalNat {o : Option Nat} (h : ∀ n ∈ o, n < Number.limit) :
    Encodes optionalNat? (optionalNat o) o := by
  cases o with
  | none => exact ⟨.null, rfl⟩
  | some n =>
      refine ⟨isLegal_nat n, ?_⟩
      show (nat? (nat n)).map some = _
      rw [(encodes_nat (h n rfl)).read]
      rfl

theorem encodes_bool (b : Bool) : Encodes bool? (.bool b) b := ⟨.bool b, rfl⟩

/-! ### Lists and tables -/

theorem encodes_list {read? : Json → Option α} {write : α → Json} {xs : List α}
    (h : ∀ x ∈ xs, Encodes read? (write x) x) :
    Encodes (list? read?) (.array (xs.map write)) xs where
  legal := .array (List.forall_mem_map.2 fun x hx => (h x hx).legal)
  read := by
    show (xs.map write).mapM read? = _
    rw [mapM_map_eq_some fun x hx => (h x hx).read, List.map_id']

theorem encodes_table {read? : Json → Option α} {write : α → Json} {entries : List (Nat × α)}
    (hkeys : ∀ entry ∈ entries, entry.1 < Number.limit)
    (h : ∀ entry ∈ entries, Encodes read? (write entry.2) entry.2) :
    Encodes (table? read?) (table (entries.map fun (key, x) => (key, write x))) entries where
  legal := by
    unfold table
    rw [List.map_map]
    refine .object (List.forall_mem_map.2 fun entry _ => isQuotable_digits entry.1)
      (List.forall_mem_map.2 fun entry hentry => (h entry hentry).legal)
  read := by
    unfold table table?
    rw [List.map_map]
    refine (mapM_map_eq_some (g := id) fun entry hentry => ?_).trans (by rw [List.map_id])
    simp [Number.natural?_digits (hkeys entry hentry), (h entry hentry).read]

/-! ### Records and choices -/

/-- The names can name the fields of a record. -/
def AreFields (names : List String) : Prop := names.Nodup ∧ ∀ text ∈ names, IsName text

instance (names : List String) : Decidable (AreFields names) :=
  inferInstanceAs (Decidable (names.Nodup ∧ ∀ text ∈ names, IsName text))

theorem filter_eq_singleton {fields : List (String × Json)} (hnodup : (fields.map Prod.fst).Nodup)
    {field : String × Json} (hfield : field ∈ fields) :
    fields.filter (·.1 = field.1) = [field] := by
  induction fields with
  | nil => cases hfield
  | cons other rest ih =>
      obtain ⟨hother, hrest⟩ := List.nodup_cons.1 hnodup
      rcases List.mem_cons.1 hfield with rfl | hmem
      · have hnone : rest.filter (·.1 = field.1) = [] :=
          List.filter_eq_nil_iff.2 fun member hmember heq =>
            hother (of_decide_eq_true heq ▸ List.mem_map_of_mem hmember)
        rw [List.filter_cons_of_pos (by simp), hnone]
      · have hne : other.1 ≠ field.1 := fun heq => hother (heq ▸ List.mem_map_of_mem hmem)
        rw [List.filter_cons_of_neg (by simpa using hne), ih hrest hmem]

section Record

variable {fields : List (String × Json)} {names : List String} (hnames : AreFields names)
  (heq : fields.map Prod.fst = names)
include hnames heq

theorem isName_of_mem {field : String × Json} (hfield : field ∈ fields) : IsName field.1 :=
  hnames.2 _ (heq ▸ List.mem_map_of_mem hfield)

theorem isLegal_record (hvalues : ∀ field ∈ fields, field.2.IsLegal) :
    (record fields).IsLegal :=
  .object (List.forall_mem_map.2 fun _ hfield => (isName_of_mem hnames heq hfield).isQuotable)
    (List.forall_mem_map.2 hvalues)

/-- The fields of a record are found under their names. -/
theorem fieldsFrom?_record (least : Nat) :
    (record fields).fieldsFrom? least names = some (fields.map fun field => some field.2) := by
  have hnamed : named? (fields.map fun field => (field.1.toList, field.2)) = some fields := by
    refine (mapM_map_eq_some (g := id) fun field hfield => ?_).trans (by rw [List.map_id])
    show (Quoted.decode? field.1.toList).map (·, field.2) = _
    rw [(isName_of_mem hnames heq hfield).decode?]
    rfl
  have hfields : (fields.map Prod.fst).mapM (field? fields) =
      some (fields.map fun field => some field.2) := by
    refine mapM_map_eq_some fun field hfield => ?_
    unfold field?
    rw [filter_eq_singleton (heq ▸ hnames.1) hfield]
  show (named? _).bind (fun members => names.mapM (field? members)) = _
  rw [hnamed, Option.bind_some, ← heq, hfields]

/-- A record encodes what is read from its fields. -/
theorem encodes_record {read? : Json → Option α} {x : α}
    (hvalues : ∀ field ∈ fields, field.2.IsLegal)
    (hread : ∀ v : Json, (∀ least, v.fieldsFrom? least names =
      some (fields.map fun field => some field.2)) → read? v = some x) :
    Encodes read? (record fields) x :=
  ⟨isLegal_record hnames heq hvalues, hread _ (fieldsFrom?_record hnames heq)⟩

end Record

section Choice

variable {read? : Json → Option α} {x : α} {text : String} (h : IsName text)
include h

theorem encodes_name (hread : ∀ v : Json, v.choice? = some (text, none) → read? v = some x) :
    Encodes read? (name text) x := by
  refine ⟨.string h.isQuotable, hread _ ?_⟩
  show (Quoted.decode? text.toList).map (·, none) = _
  rw [h.decode?]
  rfl

/-- A choice encodes what is read from its parts. -/
theorem encodes_choice {parts : List (String × Json)} (hparts : (record parts).IsLegal)
    (hread : ∀ v : Json, v.choice? = some (text, some (record parts)) → read? v = some x) :
    Encodes read? (choice text parts) x := by
  refine ⟨.object (List.forall_mem_singleton.2 h.isQuotable)
    (List.forall_mem_singleton.2 hparts), hread _ ?_⟩
  show (Quoted.decode? text.toList).map (·, some (record parts)) = _
  rw [h.decode?]
  rfl

end Choice

end Interleaving.Json
