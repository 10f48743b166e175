/-
Reading back what was written.

* `Reads` — a reader takes a written value off a text, whatever follows it, exactly if the value
  fits.
* `printed` — the parts of a list or a record as they are printed, up to the closing bracket.
* `Reads.string`, `Reads.count`, `Reads.choice`, `Reads.list`, `Reads.entries` — texts, counts, names
  of a fixed set, lists and maps.
* `FieldsRead`, `Reads.record` — records, field by field.
* `Reads.run` — **a whole document is read back exactly if its values fit**.
-/

import Reckoner.Document.Error
import Reckoner.Proofs.Document.Tokens

namespace Reckoner.Reader

variable {α β : Type}

/-- Whatever blanks stand before a written value and whatever may follow it, the reader takes the
value off exactly if it fits. -/
def Reads (reader : Reader α) (json : Json) (fits : Prop) (value : α) : Prop :=
  ∀ (level : Nat) (gap rest : List Char), Gap gap → Ends rest → ∀ result,
    reader (gap ++ (json.pretty level ++ rest)) = .ok result ↔ fits ∧ result = (value, rest)

/-! ### Single values -/

/-- A reader in front that takes a value off leaves the rest to the next one. -/
theorem bind_eq_ok_of_iff {reader : Reader α} {text rest : List Char} {fits : Prop} {value : α}
    (taken : ∀ result, reader text = .ok result ↔ fits ∧ result = (value, rest))
    (next : α → Reader β) (result : β × List Char) :
    (reader >>= next) text = .ok result ↔ fits ∧ next value rest = .ok result := by
  rw [run_bind_eq_ok]
  constructor
  · rintro ⟨first, after, ran, left⟩
    obtain ⟨fit, equal⟩ := (taken _).mp ran
    cases equal
    exact ⟨fit, left⟩
  · rintro ⟨fit, left⟩
    exact ⟨value, rest, (taken _).mpr ⟨fit, rfl⟩, left⟩

theorem pure_eq_ok {value : α} {rest : List Char} {result : α × List Char} :
    (pure value : Reader α) rest = .ok result ↔ result = (value, rest) := by
  constructor
  · rintro ⟨⟩
    rfl
  · rintro rfl
    rfl

theorem Reads.map {reader : Reader α} {json : Json} {fits : Prop} {value : α}
    (reads : Reads reader json fits value) (f : α → β) :
    Reads (reader >>= fun a => pure (f a)) json fits (f value) := by
  intro level gap rest blank ends result
  rw [bind_eq_ok_of_iff (reads level gap rest blank ends), pure_eq_ok]

theorem Reads.congr {reader : Reader α} {json : Json} {fits other : Prop} {value : α}
    (reads : Reads reader json fits value) (same : fits ↔ other) :
    Reads reader json other value := by
  intro level gap rest blank ends result
  rw [← same]
  exact reads level gap rest blank ends result

theorem Reads.string (content : String) : Reads string (.text content) True content := by
  intro level gap rest blank _ result
  have taken : Reader.string (gap ++ (Json.quoted content ++ rest)) = .ok (content, rest) := by
    unfold Reader.string
    rw [run_peek, quoted_append, blank.dropWhile rfl]
    exact afterQuote_quoted content rest
  show Reader.string (gap ++ (Json.quoted content ++ rest)) = _ ↔ _
  rw [taken]
  constructor
  · rintro ⟨⟩
    exact ⟨trivial, rfl⟩
  · rintro ⟨_, rfl⟩
    rfl

theorem Reads.count (n : Nat) : Reads count (.natural n) (Countable n) n := by
  intro level gap rest blank ends result
  exact count_naturalDigits n blank ends

/-- A count that is there is read as an optional one. -/
theorem Reads.optionalCount (n : Nat) :
    Reads (optional Reader.count) (.natural n) (Countable n) (some n) := by
  intro level gap rest blank ends result
  have present : optional Reader.count (gap ++ (naturalDigits n ++ rest)) =
      (Reader.count >>= fun a => pure (some a)) (naturalDigits n ++ rest) := by
    obtain ⟨c, more, digits, digit⟩ := naturalDigits_cons n
    have different : c ≠ 'n' := ne_of_isDigit digit rfl
    unfold optional
    rw [run_peek, blank.dropWhile_naturalDigits n, digits]
    simp only [List.cons_append, List.head?_cons, Option.some.injEq, different, imp_self]
    rfl
  show optional Reader.count (gap ++ (naturalDigits n ++ rest)) = _ ↔ _
  rw [present]
  exact (Reads.count n).map some level [] rest Gap.nil ends result

/-- A name of a fixed set that is written as a text. -/
theorem Reads.choice {ofName? : String → Option α} {name : String} {value : α}
    (named : ofName? name = some value) : Reads (choice ofName?) (.text name) True value := by
  intro level gap rest blank ends result
  unfold Reader.choice
  have quote : (gap ++ ((Json.text name).pretty level ++ rest)).dropWhile isGap =
      [] ++ ((Json.text name).pretty level ++ rest) := blank.dropWhile rfl _
  rw [run_peek, quote]
  refine (bind_eq_ok_of_iff (Reads.string name level [] rest Gap.nil ends) _ result).trans ?_
  dsimp only
  rw [named]
  exact and_congr_right fun _ => pure_eq_ok

/-! ### Lists and maps -/

/-- What separates a part of a list or a map from what stands before it. -/
def separator (level : Nat) (first : Bool) : List Char :=
  (if first then [] else [',']) ++ Json.newLine (level + 1)

/-- A sequence goes on at the next part. -/
theorem goesOn_separator {closing c : Char} (solid : isGap c = false) (part : c ≠ closing)
    (comma : closing ≠ ',') (level : Nat) (first : Bool) (more : List Char) :
    goesOn closing first (separator level first ++ c :: more) = .ok (true, c :: more) := by
  have blank := Gap.newLine (level + 1)
  cases first with
  | true =>
    unfold goesOn separator
    rw [if_pos rfl, List.nil_append, run_peek, blank.dropWhile solid]
    show (if c = closing then pure false else pure true : Reader Bool) (c :: more) = _
    rw [if_neg part]
    rfl
  | false =>
    have parted : separator level false ++ c :: more =
        [] ++ ',' :: (Json.newLine (level + 1) ++ c :: more) := rfl
    have unfinished : ',' ≠ closing := fun same => comma same.symm
    rw [parted]
    unfold goesOn
    rw [run_peek, Gap.nil.dropWhile rfl]
    simp only [List.head?_cons, unfinished, Bool.false_eq_true, if_false, if_true, run_advance,
      List.tail_cons]
    rw [run_peek, blank.dropWhile solid]
    simp only [List.head?_cons, part, if_false]
    rfl

/-- A sequence ends at its closing bracket. -/
theorem goesOn_closing {closing : Char} (solid : isGap closing = false) (level : Nat)
    (first : Bool) (rest : List Char) :
    goesOn closing first ((if first then [] else Json.newLine level) ++ closing :: rest) =
      .ok (false, closing :: rest) := by
  have blank : Gap (if first then [] else Json.newLine level) := by
    split
    · exact Gap.nil
    · exact Gap.newLine level
  unfold goesOn
  rw [run_peek, blank.dropWhile solid]
  show (if closing = closing then pure false else _ : Reader Bool) (closing :: rest) = _
  rw [if_pos rfl]
  rfl

theorem key_quoted (name : String) (rest : List Char) :
    key true ('"' :: (name.toList.flatMap Json.escaped ++ '"' :: rest)) = .ok (name, rest) := by
  unfold key
  rw [run_peek]
  exact afterQuote_quoted name rest

theorem colon_cons (rest : List Char) : colon (':' :: rest) = .ok ((), rest) := rfl

theorem Gap.blank : Gap [' '] := by
  intro c member
  rw [List.mem_singleton.mp member]
  rfl

/-! ### Printed sequences -/

/-- The printed parts of a list or a record, each behind what separates it, up to the closing
bracket. -/
def printed (closing : Char) (level : Nat) : (first : Bool) → List (List Char) → List Char
  | first, [] => (if first then [] else Json.newLine level) ++ [closing]
  | first, part :: others =>
    separator level first ++ (part ++ printed closing level false others)

section Printed

variable (closing : Char) (level : Nat) (first : Bool)

theorem printed_nil_append (rest : List Char) : printed closing level first [] ++ rest =
    (if first then [] else Json.newLine level) ++ closing :: rest := by
  rw [printed, List.append_assoc, List.singleton_append]

theorem printed_cons_append (part : List Char) (others : List (List Char)) (rest : List Char) :
    printed closing level first (part :: others) ++ rest =
      separator level first ++ (part ++ (printed closing level false others ++ rest)) := by
  rw [printed, List.append_assoc, List.append_assoc]

/-- What follows a part of a sequence ends a value. -/
theorem ends_printed (others : List (List Char)) (rest : List Char) :
    Ends (printed closing level false others ++ rest) := by
  intro c head
  cases others with
  | nil => exact .inr (Option.some.inj head).symm
  | cons part others => exact .inl (Option.some.inj head).symm

/-- A sequence has more characters than parts, for each stands on a line of its own. -/
theorem length_printed (parts : List (List Char)) :
    parts.length < (printed closing level first parts).length := by
  induction parts generalizing first with
  | nil =>
    rw [printed, List.length_append]
    exact Nat.lt_add_left _ Nat.zero_lt_one
  | cons part others ih =>
    have shorter := ih false
    have line : 0 < (separator level first).length := by
      rw [separator, List.length_append]
      exact Nat.lt_add_left _ (Nat.succ_pos _)
    rw [printed, List.length_append, List.length_append, List.length_cons]
    omega

end Printed

/-- A field of a record as it is printed. -/
def printedField (level : Nat) (field : String × Json) : List Char :=
  Json.quoted field.1 ++ ':' :: ' ' :: field.2.pretty (level + 1)

theorem printedField_append (level : Nat) (name : String) (json : Json) (rest : List Char) :
    printedField level (name, json) ++ rest = '"' :: (name.toList.flatMap Json.escaped ++
      '"' :: ':' :: ([' '] ++ (json.pretty (level + 1) ++ rest))) := by
  simp [printedField, Json.quoted]

theorem prettyFields_eq (level : Nat) (first : Bool) (fields : List (String × Json)) :
    Json.prettyFields level first fields =
      printed '}' level first (fields.map (printedField level)) := by
  induction fields generalizing first with
  | nil => cases first <;> rfl
  | cons field others ih => simp [Json.prettyFields, printed, printedField, separator, ih]

theorem prettyItems_eq (level : Nat) (first : Bool) (items : List Json) :
    Json.prettyItems level first items =
      printed ']' level first (items.map fun item => item.pretty (level + 1)) := by
  induction items generalizing first with
  | nil => cases first <;> rfl
  | cons item others ih => simp [Json.prettyItems, printed, separator, ih]

/-- A value starts with a character that is no blank and closes nothing. -/
theorem pretty_cons (json : Json) (level : Nat) :
    ∃ c more, json.pretty level = c :: more ∧ isGap c = false ∧ c ≠ ']' := by
  cases json with
  | null => exact ⟨'n', _, rfl, rfl, by decide⟩
  | natural n =>
    obtain ⟨c, more, digits, digit⟩ := naturalDigits_cons n
    exact ⟨c, more, digits, isGap_of_isDigit digit, ne_of_isDigit digit rfl⟩
  | text content => exact ⟨'"', _, rfl, rfl, by decide⟩
  | list items => exact ⟨'[', _, rfl, rfl, by decide⟩
  | record fields => exact ⟨'{', _, rfl, rfl, by decide⟩

/-! ### Records -/

section Records

variable {fields : List (Field α)} {strict : Bool}

/-- A known and new field is read, and the reader goes on behind it. -/
theorem fieldsByName_cons {field : Field α} {name : String} {json : Json} {fits : Prop}
    {partly later : α} {seen : List String}
    (known : fields.find? (·.name = name) = some field) (fresh : name ∉ seen)
    (reads : Reads (field.read partly) json fits later) (fuel level : Nat) (first : Bool)
    (others : List (String × Json)) (rest : List Char) (result : α × List Char) :
    fieldsByName fields strict (fuel + 1) first seen partly
        (printed '}' level first (((name, json) :: others).map (printedField level)) ++ rest) =
          .ok result ↔
      fits ∧ fieldsByName fields strict fuel false (name :: seen) later
        (printed '}' level false (others.map (printedField level)) ++ rest) = .ok result := by
  rw [List.map_cons, printed_cons_append, printedField_append, fieldsByName,
    run_bind_ok (goesOn_separator rfl (by decide) (by decide) level first _)]
  rw [if_pos rfl, run_bind_ok (key_quoted name _), known]
  simp only [fresh, if_false]
  rw [run_bind_ok (colon_cons _)]
  exact bind_eq_ok_of_iff
    (reads (level + 1) _ _ Gap.blank (ends_printed _ level _ rest)) _ result

/-- A record without open fields ends at its brace. -/
theorem fieldsByName_nil {partly : α} {seen : List String}
    (complete : (fields.any fun field => field.required && !seen.contains field.name) = false)
    (fuel level : Nat) (first : Bool) (rest : List Char) (result : α × List Char) :
    fieldsByName fields strict (fuel + 1) first seen partly
        (printed '}' level first [] ++ rest) = .ok result ↔ result = (partly, rest) := by
  rw [printed_nil_append, fieldsByName, run_bind_ok (goesOn_closing rfl level first rest)]
  simp only [Bool.false_eq_true, if_false, complete]
  rw [run_advance]
  exact pure_eq_ok

/-- Written fields that are read one after another, from a record that holds what the fields `seen`
have given. -/
inductive FieldsRead (fields : List (Field α)) :
    List String → α → List (String × Json) → Prop → α → Prop
  | done {seen : List String} {value : α}
      (complete : (fields.any fun field => field.required && !seen.contains field.name) = false) :
      FieldsRead fields seen value [] True value
  | field {field : Field α} {name : String} {json : Json} {fits more : Prop} {seen : List String}
      {partly later value : α} {others : List (String × Json)}
      (known : fields.find? (·.name = name) = some field) (fresh : name ∉ seen)
      (reads : Reads (field.read partly) json fits later)
      (rest : FieldsRead fields (name :: seen) later others more value) :
      FieldsRead fields seen partly ((name, json) :: others) (fits ∧ more) value

theorem FieldsRead.run {seen : List String} {partly value : α} {written : List (String × Json)}
    {fits : Prop} (reads : FieldsRead fields seen partly written fits value) (fuel level : Nat)
    (first : Bool) (rest : List Char) (result : α × List Char) (bound : written.length < fuel) :
    fieldsByName fields strict fuel first seen partly
        (printed '}' level first (written.map (printedField level)) ++ rest) = .ok result ↔
      fits ∧ result = (value, rest) := by
  induction reads generalizing fuel first with
  | done complete =>
    obtain ⟨fuel, rfl⟩ : ∃ more, fuel = more + 1 := ⟨fuel - 1, by omega⟩
    rw [List.map_nil, fieldsByName_nil complete, true_and]
  | field known fresh reads _ ih =>
    obtain ⟨fuel, rfl⟩ : ∃ more, fuel = more + 1 := ⟨fuel - 1, by omega⟩
    rw [List.length_cons] at bound
    rw [fieldsByName_cons known fresh reads, ih fuel false (by omega), and_assoc]

/-- **A record is read field by field.** -/
theorem Reads.record {defaults value : α} {written : List (String × Json)} {fits : Prop}
    (reads : FieldsRead fields [] defaults written fits value) :
    Reads (record fields strict defaults) (.record written) fits value := by
  intro level gap rest blank _ result
  have bound : written.length <
      (printed '}' level true (written.map (printedField level)) ++ rest).length + 1 := by
    have shorter := length_printed '}' level true (written.map (printedField level))
    rw [List.length_map] at shorter
    rw [List.length_append]
    omega
  show Reader.record fields strict defaults
    (gap ++ '{' :: (Json.prettyFields level true written ++ rest)) = _ ↔ _
  rw [prettyFields_eq]
  unfold Reader.record
  rw [run_peek, blank.dropWhile rfl]
  exact reads.run _ level true rest result bound

end Records

/-! ### Maps and lists of values of one kind -/

section Values

variable {reader : Reader α} {json : α → Json} {fits : α → Prop}
  (reads : ∀ a, Reads reader (json a) (fits a) a)

include reads

theorem pairs_map (entries : List (String × α)) (fuel level : Nat) (first : Bool)
    (rest : List Char) (result : List (String × α) × List Char)
    (bound : entries.length < fuel) :
    pairs true reader fuel first (printed '}' level first
        (entries.map fun entry => printedField level (entry.1, json entry.2)) ++ rest) =
          .ok result ↔
      (∀ entry ∈ entries, fits entry.2) ∧ result = (entries, rest) := by
  induction entries generalizing fuel first result with
  | nil =>
    obtain ⟨fuel, rfl⟩ : ∃ more, fuel = more + 1 := ⟨fuel - 1, by omega⟩
    rw [List.map_nil, printed_nil_append, pairs, run_bind_ok (goesOn_closing rfl level first rest)]
    simp only [Bool.false_eq_true, if_false]
    rw [run_advance]
    refine pure_eq_ok.trans ?_
    rw [and_iff_right (List.forall_mem_nil _)]
    rfl
  | cons entry others ih =>
    obtain ⟨fuel, rfl⟩ : ∃ more, fuel = more + 1 := ⟨fuel - 1, by omega⟩
    rw [List.length_cons] at bound
    rw [List.map_cons, printed_cons_append, printedField_append, pairs,
      run_bind_ok (goesOn_separator rfl (by decide) (by decide) level first _), if_pos rfl,
      run_bind_ok (key_quoted entry.1 _), run_bind_ok (colon_cons _),
      bind_eq_ok_of_iff
        (reads entry.2 (level + 1) _ _ Gap.blank (ends_printed _ level _ rest)),
      bind_eq_ok_of_iff fun result => ih fuel false result (by omega), pure_eq_ok,
      List.forall_mem_cons, and_assoc]

/-- **A map is read entry by entry.** -/
theorem Reads.entries (written : List (String × α)) :
    Reads (Reader.entries reader) (.record (written.map fun entry => (entry.1, json entry.2)))
      (∀ entry ∈ written, fits entry.2) written := by
  intro level gap rest blank _ result
  let parts := written.map fun entry => printedField level (entry.1, json entry.2)
  have bound : written.length < (printed '}' level true parts ++ rest).length + 1 := by
    have shorter := length_printed '}' level true parts
    rw [List.length_map] at shorter
    rw [List.length_append]
    omega
  show Reader.entries reader (gap ++ '{' :: (Json.prettyFields level true _ ++ rest)) = _ ↔ _
  rw [prettyFields_eq, List.map_map]
  unfold Reader.entries
  rw [run_peek, blank.dropWhile rfl]
  exact pairs_map reads written _ level true rest result bound

theorem items_map (contents : List α) (fuel level : Nat) (first : Bool)
    (rest : List Char) (result : List α × List Char) (bound : contents.length < fuel) :
    items reader fuel first
        (printed ']' level first (contents.map fun item => (json item).pretty (level + 1)) ++
          rest) = .ok result ↔
      (∀ item ∈ contents, fits item) ∧ result = (contents, rest) := by
  induction contents generalizing fuel first result with
  | nil =>
    obtain ⟨fuel, rfl⟩ : ∃ more, fuel = more + 1 := ⟨fuel - 1, by omega⟩
    rw [List.map_nil, printed_nil_append, items, run_bind_ok (goesOn_closing rfl level first rest)]
    simp only [Bool.false_eq_true, if_false]
    rw [run_advance]
    refine pure_eq_ok.trans ?_
    rw [and_iff_right (List.forall_mem_nil _)]
    rfl
  | cons item others ih =>
    obtain ⟨fuel, rfl⟩ : ∃ more, fuel = more + 1 := ⟨fuel - 1, by omega⟩
    obtain ⟨c, more, head, solid, part⟩ := pretty_cons (json item) (level + 1)
    have taken := reads item (level + 1) [] _ Gap.nil (ends_printed ']' level
      (others.map fun item => (json item).pretty (level + 1)) rest)
    rw [head, List.nil_append, List.cons_append] at taken
    rw [List.length_cons] at bound
    rw [List.map_cons, printed_cons_append, head, items, List.cons_append,
      run_bind_ok (goesOn_separator solid part (by decide) level first _), if_pos rfl,
      bind_eq_ok_of_iff taken, bind_eq_ok_of_iff fun result => ih fuel false result (by omega),
      pure_eq_ok, List.forall_mem_cons, and_assoc]

/-- **A list is read item by item.** -/
theorem Reads.list (contents : List α) :
    Reads (Reader.list reader) (.list (contents.map json)) (∀ item ∈ contents, fits item)
      contents := by
  intro level gap rest blank _ result
  let parts := contents.map fun item => (json item).pretty (level + 1)
  have bound : contents.length < (printed ']' level true parts ++ rest).length + 1 := by
    have shorter := length_printed ']' level true parts
    rw [List.length_map] at shorter
    rw [List.length_append]
    omega
  show Reader.list reader (gap ++ '[' :: (Json.prettyItems level true _ ++ rest)) = _ ↔ _
  rw [prettyItems_eq, List.map_map]
  unfold Reader.list
  rw [run_peek, blank.dropWhile rfl]
  exact items_map reads contents _ level true rest result bound

end Values

/-! ### Documents -/

/-- **A whole document is read back exactly if its values fit.** -/
theorem Reads.run {reader : Reader α} {json : Json} {fits : Prop} {value : α}
    (reads : Reads reader json fits value) {found : α} :
    reader.run json.prettyText = .ok found ↔ fits ∧ found = value := by
  have ends : Ends [] := by
    intro c head
    cases head
  have text : json.prettyText.toList = [] ++ (json.pretty 0 ++ []) := by
    unfold Json.prettyText
    rw [String.toList_ofList, List.append_nil, List.nil_append]
  have whole := reads 0 [] [] Gap.nil ends
  unfold Reader.run Reader.document
  rw [text]
  constructor
  · intro ran
    cases taken : reader ([] ++ (json.pretty 0 ++ [])) with
    | error fault =>
      rw [taken] at ran
      cases ran
    | ok parts =>
      obtain ⟨fit, rfl⟩ := (whole parts).mp taken
      rw [taken] at ran
      cases ran
      exact ⟨fit, rfl⟩
  · rintro ⟨fit, rfl⟩
    rw [(whole (found, [])).mpr ⟨fit, rfl⟩]
    rfl

end Reckoner.Reader
