import Webfang.Export.VectorExporter

/-!
# The layout of a vector file

A `VectorFile` is what a file written by the exporter holds: the values of the two header
windows, the creation time and the documents, one text each.  `VectorFile.text` is the file
as a text; reading it as JSON gives an object with these documents and their count.
-/

namespace Webfang

/-- The lines of the documents, a comma before each one but the first. -/
def documentLines (first : List Char) (rest : List (List Char)) : List Char :=
  first ++ '\n' :: rest.flatMap fun text => ',' :: (text ++ ['\n'])

/-- What a file of the exporter holds; the windows hold their values. -/
structure VectorFile where
  dimensions : Option Nat
  createdAt : Timestamp
  first : List Char
  rest : List (List Char)
  dimensions_fit : (dimensionsJson dimensions).length ≤ dimFieldWidth
  count_fits : (Json.ofNat (rest.length + 1)).length ≤ countFieldWidth

namespace VectorFile

def count (v : VectorFile) : Nat := v.rest.length + 1

/-- The file up to the closing bracket of its documents. -/
def opened (v : VectorFile) : List Char :=
  headerLine (padLeft dimFieldWidth (dimensionsJson v.dimensions))
    (padLeft countFieldWidth (Json.ofNat v.count)) v.createdAt.text ++
      documentLines v.first v.rest

/-- The whole file. -/
def text (v : VectorFile) : List Char := v.opened ++ "]\x7d\n".toList

def bytes (v : VectorFile) : List UInt8 := Utf8.encode v.text

end VectorFile

/-! ## Reading a vector file -/

/-- The number in a reserved window. -/
theorem value_padLeft {fuel width : Nat} {text more : List Char} {v : Json.Value}
    (read : Json.value fuel (text ++ more) = some (v, more)) :
    Json.value fuel (padLeft width text ++ more) = some (v, more) := by
  unfold padLeft
  rw [List.append_assoc]
  induction width - text.length with
  | zero => exact read
  | succ n ih => rw [List.replicate_succ, List.cons_append, Json.value_space, ih]

theorem documentLines_cons (first second : List Char) (rest : List (List Char)) :
    documentLines first (second :: rest) = first ++ '\n' :: ',' :: documentLines second rest := by
  simp [documentLines]

/-- The document lines read as the values of their texts. -/
theorem elements_documentLines {first : List Char} {rest : List (List Char)}
    {values : List Json.Value} {fuel : Nat} (more : List Char)
    (parsed : List.Forall₂ (fun text v => Json.parse text = some v) (first :: rest) values)
    (enough : 2 * (documentLines first rest).length + 2 ≤ fuel) :
    Json.elements fuel (documentLines first rest ++ ']' :: more) = some (values, more) := by
  have newline : ∀ left : List Char, Json.EndsNumber ('\n' :: left) := by
    rintro left c ⟨⟩
    rfl
  obtain ⟨fuel, rfl⟩ := Nat.exists_eq_succ_of_ne_zero (n := fuel) (by omega)
  induction rest generalizing first values fuel with
  | nil =>
      obtain ⟨v, -, here, ⟨⟩, rfl⟩ := List.forall₂_cons_left_iff.mp parsed
      have long : (documentLines first []).length = first.length + 1 := by simp [documentLines]
      obtain ⟨left, read, space⟩ := Json.value_of_parse here (newline (']' :: more))
        fuel (by unfold Json.fuelFor; omega)
      have shape : documentLines first [] ++ ']' :: more = first ++ '\n' :: ']' :: more := by
        simp [documentLines]
      rw [shape]
      refine Json.elements_succ read (Json.listTail_close ?_ (by decide))
      rw [space]
      rfl
  | cons second rest ih =>
      obtain ⟨v, values, here, later, rfl⟩ := List.forall₂_cons_left_iff.mp parsed
      have long : (documentLines first (second :: rest)).length =
          first.length + 2 + (documentLines second rest).length := by
        rw [documentLines_cons]
        simp
        omega
      obtain ⟨left, read, space⟩ := Json.value_of_parse here
        (newline (',' :: (documentLines second rest ++ ']' :: more))) fuel
        (by unfold Json.fuelFor; omega)
      obtain ⟨fuel, rfl⟩ := Nat.exists_eq_succ_of_ne_zero (n := fuel) (by omega)
      have shape : documentLines first (second :: rest) ++ ']' :: more =
          first ++ '\n' :: ',' :: (documentLines second rest ++ ']' :: more) := by
        rw [documentLines_cons]
        simp
      rw [shape]
      refine Json.elements_succ read ?_
      rw [Json.listTail_comma (documentLines second rest ++ ']' :: more)
        (by rw [space]; rfl)]
      exact ih later fuel (by omega)

/-- The members of a vector file's object. -/
def VectorFile.members (v : VectorFile) (values : List Json.Value) :
    List (List Char × Json.Value) :=
  [("format_version".toList, .string "1.0".toList),
    ("model_name".toList, .null),
    ("dimensions".toList, match v.dimensions with
      | some d => .number (Json.ofNat d)
      | none => .null),
    ("total_documents".toList, .number (Json.ofNat v.count)),
    ("created_at".toList, .string v.createdAt.text),
    ("documents".toList, .array values)]

/-- The value of the header's dimensions. -/
def dimensionsValue : Option Nat → Json.Value
  | some d => .number (Json.ofNat d)
  | none => .null

/-- The members of an object of this layout. -/
def fileMembers (dimensions : Option Nat) (count : Nat) (createdAt : Timestamp)
    (values : List Json.Value) : List (List Char × Json.Value) :=
  [("format_version".toList, .string "1.0".toList),
    ("model_name".toList, .null),
    ("dimensions".toList, dimensionsValue dimensions),
    ("total_documents".toList, .number (Json.ofNat count)),
    ("created_at".toList, .string createdAt.text),
    ("documents".toList, .array values)]

theorem isPlain_of_isTimestampChar {c : Char} (timestamp : isTimestampChar c = true) :
    Json.IsPlain c := by
  simp only [isTimestampChar, Bool.or_eq_true, beq_iff_eq] at timestamp
  rcases timestamp with (((((digit | rfl) | rfl) | rfl) | rfl) | rfl) | rfl
  · refine ⟨Json.ne_of_isDigit digit rfl, Json.ne_of_isDigit digit rfl, ?_⟩
    simp only [Char.isDigit, ge_iff_le, Bool.and_eq_true, decide_eq_true_eq] at digit
    have low : 48 ≤ c.toNat := digit.1
    omega
  all_goals decide

theorem length_headerLine (dimensions count createdAt : List Char) :
    (headerLine dimensions count createdAt).length =
      115 + dimensions.length + count.length + createdAt.length := by
  have first : "\x7b\"format_version\": \"1.0\", \"model_name\": null, \"dimensions\": ".toList.length =
      60 := rfl
  have others : ", \"total_documents\": ".toList.length = 21 ∧
      ", \"created_at\": \"".toList.length = 17 ∧ "\", \"documents\": [".toList.length = 17 :=
    ⟨rfl, rfl, rfl⟩
  unfold headerLine
  simp only [List.length_append]
  omega

/-- The header of the layout. -/
def layoutHeader (dimensions : Option Nat) (count : Nat) (createdAt : Timestamp) : List Char :=
  headerLine (padLeft dimFieldWidth (dimensionsJson dimensions))
    (padLeft countFieldWidth (Json.ofNat count)) createdAt.text

/-- A text of the layout, up to its last line break, reads as an object with its documents. -/
theorem parse_closed (dimensions : Option Nat) (count : Nat) (createdAt : Timestamp)
    {first : List Char} {rest : List (List Char)} {values : List Json.Value}
    (parsed : List.Forall₂ (fun text value => Json.parse text = some value) (first :: rest)
      values) :
    Json.parse (layoutHeader dimensions count createdAt ++
      (documentLines first rest ++ "]\x7d".toList)) =
        some (.object (fileMembers dimensions count createdAt values)) := by
  let lines := documentLines first rest ++ ']' :: "\x7d".toList
  let whole := layoutHeader dimensions count createdAt ++
    (documentLines first rest ++ "]\x7d".toList)
  have shape : whole = '{' :: Json.member "format_version".toList ('"' :: ("1.0".toList ++
      '"' :: ',' :: ' ' :: Json.member "model_name".toList ('n' :: 'u' :: 'l' :: 'l' :: ',' ::
      ' ' :: Json.member "dimensions".toList (padLeft dimFieldWidth (dimensionsJson dimensions) ++
      ',' :: ' ' :: Json.member "total_documents".toList (padLeft countFieldWidth
      (Json.ofNat count) ++ ',' :: ' ' :: Json.member "created_at".toList ('"' ::
      (createdAt.text ++ '"' :: ',' :: ' ' :: Json.member "documents".toList
      ('[' :: lines)))))))) := by
    unfold whole layoutHeader headerLine
    simp only [List.append_assoc]
    rfl
  have long : 2 * (documentLines first rest).length + 10 ≤ Json.fuelFor whole := by
    have parts : whole.length = (layoutHeader dimensions count createdAt).length +
        ((documentLines first rest).length + 2) := by
      unfold whole
      rw [List.length_append, List.length_append]
      rfl
    rw [layoutHeader, length_headerLine] at parts
    unfold Json.fuelFor
    omega
  obtain ⟨fuel, enough⟩ : ∃ fuel, Json.fuelFor whole = fuel + 8 := ⟨_, (Nat.sub_add_cancel
    (Nat.le_trans (Nat.le_add_left ..) long)).symm⟩
  have comma (left : List Char) : Json.EndsNumber (',' :: left) := by
    rintro c ⟨⟩
    rfl
  have readLines : Json.elements fuel lines = some (values, "\x7d".toList) :=
    elements_documentLines _ parsed (by omega)
  have notClosed := Json.symbol_close_of_elements readLines
  have readNumber (n fuel : Nat) (width : Nat) (left : List Char) :
      Json.value (fuel + 1) (padLeft width (Json.ofNat n) ++ ',' :: left) =
        some (.number (Json.ofNat n), ',' :: left) :=
    value_padLeft (Json.value_ofNat n fuel (comma left))
  have readDimensions (left : List Char) :
      Json.value (fuel + 4) (padLeft dimFieldWidth (dimensionsJson dimensions) ++ ',' :: left) =
        some (dimensionsValue dimensions, ',' :: left) := by
    cases dimensions with
    | some d => exact readNumber d (fuel + 3) dimFieldWidth left
    | none => exact value_padLeft (Json.value_null (fuel + 3) (',' :: left))
  -- from the last member back to the first
  have documents := Json.members_close (fuel + 1) "documents".toList
    (Json.plain_of_all (by decide))
    (Json.value_array notClosed readLines)
  have created := Json.members_comma (fuel + 2) "created_at".toList (Json.plain_of_all (by decide))
    (Json.value_string (fuel + 1) createdAt.text
      (fun c member => isPlain_of_isTimestampChar (createdAt.plain c member)) _) documents
  have counted := Json.members_comma (fuel + 3) "total_documents".toList
    (Json.plain_of_all (by decide))
    (readNumber count (fuel + 2) countFieldWidth _) created
  have sized := Json.members_comma (fuel + 4) "dimensions".toList (Json.plain_of_all (by decide))
    (readDimensions _) counted
  have named := Json.members_comma (fuel + 5) "model_name".toList
    (Json.plain_of_all (by decide))
    (Json.value_null (fuel + 4) _) sized
  have versioned := Json.members_comma (fuel + 6) "format_version".toList
    (Json.plain_of_all (by decide))
    (Json.value_string (fuel + 5) "1.0".toList (Json.plain_of_all (by decide)) _) named
  have read := Json.value_object rfl versioned
  rw [← shape, ← enough] at read
  unfold Json.parse
  rw [read]
  rfl


theorem VectorFile.opened_eq (v : VectorFile) :
    v.opened = layoutHeader v.dimensions v.count v.createdAt ++ documentLines v.first v.rest := rfl

theorem endsNumber_newline (more : List Char) : Json.EndsNumber ('\n' :: more) := by
  rintro c ⟨⟩
  rfl

/-- A line break behind a text changes nothing. -/
theorem parse_newline {text : List Char} {v : Json.Value} (read : Json.parse text = some v) :
    Json.parse (text ++ ['\n']) = some v := by
  rw [Json.parse_append read (endsNumber_newline []),
    if_pos (show (Json.skipSpace ['\n']).isEmpty = true from rfl)]

/-- A vector file reads as an object with its documents and their count. -/
theorem VectorFile.parse_text {v : VectorFile} {values : List Json.Value}
    (parsed : List.Forall₂ (fun text value => Json.parse text = some value) (v.first :: v.rest)
      values) : Json.parse v.text = some (.object (v.members values)) := by
  have closed := parse_closed v.dimensions v.count v.createdAt parsed
  have same : v.members values = fileMembers v.dimensions v.count v.createdAt values := by
    unfold VectorFile.members fileMembers dimensionsValue
    cases v.dimensions <;> rfl
  rw [same, ← parse_newline closed, VectorFile.text, VectorFile.opened_eq, List.append_assoc, List.append_assoc,
    List.append_assoc]
  rfl

end Webfang
