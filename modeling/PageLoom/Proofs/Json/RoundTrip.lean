import PageLoom.Proofs.Json.Document
import PageLoom.Proofs.Json.Number
import PageLoom.Proofs.Json.Strings

/-!
# Reading written documents

The text of a document, with `<\/` for every `</`, is read as the document
(`readExactly?_slashed`), where numbers are read exactly.  The replacement only changes strings,
since no other part of the text has a `<`.

The induction goes down the document, with a lemma for each kind of value (`Reads`, `ReadsItems`,
`ReadsFields`).  The text that follows a value is not touched.  A text is at least as long as its
document is deep, so fuel and depth are bounded by the length.
-/

namespace PageLoom.Json

/-! ## Values -/

/-- Whether a text goes on as it does after a value. -/
def Follows (rest : List Char) : Prop := ∀ c, rest.head? = some c → c = ',' ∨ c = ']' ∨ c = '\x7d'

/-- What follows a value ends a number. -/
theorem Follows.endsNumber {rest : List Char} (h : Follows rest) : EndsNumber (slashed rest) := by
  intro c hc
  rw [head?_slashed] at hc
  rcases h c hc with rfl | rfl | rfl <;> decide

theorem follows_cons {c : Char} {cs : List Char} (h : c = ',' ∨ c = ']' ∨ c = '\x7d') :
    Follows (c :: cs) := by
  rintro _ ⟨⟩
  exact h

/-- The characters that values start with. -/
def startsValue (c : Char) : Bool :=
  c == 'n' || c == 't' || c == 'f' || c == '"' || c == '[' || c == '\x7b' || c == '-' || c.isDigit

/-- What a value starts with is neither a space, nor the end of an array, nor a bracket of
markup. -/
theorem startsValue_spec {c : Char} (h : startsValue c = true) :
    isSpace c = false ∧ c ≠ ']' ∧ c ≠ '<' := by
  refine ⟨?_, ?_, ?_⟩
  · rw [Bool.eq_false_iff]
    intro hspace
    simp only [isSpace, Bool.or_eq_true, beq_iff_eq] at hspace
    rcases hspace with ((rfl | rfl) | rfl) | rfl <;> cases h
  · rintro rfl
    cases h
  · rintro rfl
    cases h

/-- The written number of a document. -/
theorem exists_number {j : Json} (hj : j.IsDocument)
    (hnumber : (∃ n, j = .int n) ∨ ∃ x, j = .float x) :
    ∃ t : NumberText, t.chars = j.write.toList ∧ t.IsWritten ∧
      t.valueBy? NumberText.nearest? = some j := by
  rcases hnumber with ⟨n, rfl⟩ | ⟨x, rfl⟩
  · exact exists_numberText_int n NumberText.nearest?
  · obtain ⟨text, htext⟩ := exists_json?_of_isFinite hj
    obtain ⟨t, hchars, hparts, hwritten, hdenotes⟩ := exists_denotes_of_json? htext
    refine ⟨t, ?_, hwritten, ?_⟩
    · rw [hchars, write, htext, Option.getD_some]
    · rw [valueBy?_double hparts, NumberText.nearest?_eq_some_iff.mpr hdenotes, Option.map_some]

/-- A written document is not empty, and starts like a value. -/
theorem exists_write_cons {j : Json} (hj : j.IsDocument) :
    ∃ c cs, j.write.toList = c :: cs ∧ startsValue c = true := by
  have hnumber : ∀ t : NumberText, t.IsWritten →
      ∃ c cs, t.chars = c :: cs ∧ startsValue c = true := by
    intro t ht
    obtain ⟨c, cs, hcs, hc⟩ := ht.exists_cons
    refine ⟨c, cs, hcs, ?_⟩
    rcases hc with rfl | hc
    · rfl
    · rw [startsValue, hc, Bool.or_true]
  cases j with
  | null => exact ⟨'n', _, rfl, rfl⟩
  | bool b =>
      cases b
      · exact ⟨'f', _, rfl, rfl⟩
      · exact ⟨'t', _, rfl, rfl⟩
  | int n =>
      obtain ⟨t, hchars, ht, -⟩ := exists_number hj (.inl ⟨n, rfl⟩)
      exact hchars ▸ hnumber t ht
  | float x =>
      obtain ⟨t, hchars, ht, -⟩ := exists_number hj (.inr ⟨x, rfl⟩)
      exact hchars ▸ hnumber t ht
  | str s => exact ⟨'"', body s.toList ++ ['"'], by simp [write, quote, body], rfl⟩
  | arr items => exact ⟨'[', (writeItems items).toList ++ [']'], by simp [write], rfl⟩
  | obj fields => exact ⟨'\x7b', (writeFields fields).toList ++ ['\x7d'], by simp [write], rfl⟩

/-! ## Steps of the reader -/

theorem skipSpace_cons {c : Char} (h : isSpace c = false) (cs : List Char) :
    skipSpace (c :: cs) = c :: cs := by
  rw [skipSpace, List.dropWhile_cons_of_neg (by rw [h]; exact Bool.false_ne_true)]

section

variable {double? : NumberText → Option Float} {n depth : Nat} {start : Bool} {cs rest : List Char}
  {j : Json}

/-- A written number is read as a number, up to what ends it. -/
theorem scanValue?_number {t : NumberText} (ht : t.IsWritten) (hrest : EndsNumber rest) :
    scanValue? double? (n + 1) depth (t.chars ++ rest) = (t.valueBy? double?).map (·, rest) := by
  obtain ⟨c, cs, hcs, hc⟩ := ht.exists_cons
  have hscan := scanNumber?_chars ht hrest
  rw [hcs] at hscan ⊢
  have hstart : startsValue c = true := by
    rcases hc with rfl | hc
    · rfl
    · rw [startsValue, hc, Bool.or_true]
  have hother : ∀ d, d = '[' ∨ d = '\x7b' ∨ d = '"' ∨ d = 'n' ∨ d = 't' ∨ d = 'f' → c ≠ d := by
    rintro d hd rfl
    rcases hd with rfl | rfl | rfl | rfl | rfl | rfl <;> rcases hc with hc | hc <;> cases hc
  rw [scanValue?.eq_def]
  dsimp only
  rw [List.cons_append, skipSpace_cons (startsValue_spec hstart).1]
  split
  next heq => exact absurd (List.cons.inj heq).1 (hother _ (by simp))
  next heq => exact absurd (List.cons.inj heq).1 (hother _ (by simp))
  next heq => exact absurd (List.cons.inj heq).1 (hother _ (by simp))
  next heq => exact absurd (List.cons.inj heq).1 (hother _ (by simp))
  next heq => exact absurd (List.cons.inj heq).1 (hother _ (by simp))
  next heq => exact absurd (List.cons.inj heq).1 (hother _ (by simp))
  next =>
    rw [List.cons_append] at hscan
    rw [hscan]

theorem scanValue?_string : scanValue? double? (n + 1) depth ('"' :: cs) =
    (scanString? cs).map fun p => (.str (String.ofList p.1), p.2) := by
  rw [scanValue?.eq_def]
  rfl

theorem scanValue?_array (hdepth : 0 < depth) : scanValue? double? (n + 1) depth ('[' :: cs) =
    (scanItems? double? n (depth - 1) true cs).map fun p => (.arr p.1, p.2) := by
  rw [scanValue?.eq_def]
  exact if_neg hdepth.ne'

theorem scanValue?_object (hdepth : 0 < depth) : scanValue? double? (n + 1) depth ('\x7b' :: cs) =
    (scanFields? double? n (depth - 1) true cs).map fun p => (object p.1, p.2) := by
  rw [scanValue?.eq_def]
  exact if_neg hdepth.ne'

/-- Whether a text starts with an item. -/
def StartsItem (cs : List Char) : Prop := ∃ c, cs.head? = some c ∧ isSpace c = false ∧ c ≠ ']'

/-- An item is read, and then a comma or the end of the array. -/
theorem scanItems?_cons (hcs : StartsItem cs) : scanItems? double? (n + 1) depth start cs =
    match scanValue? double? n depth cs with
    | none => none
    | some (j, rest) =>
        match skipSpace rest with
        | ']' :: rest => some ([j], rest)
        | ',' :: rest => (scanItems? double? n depth false rest).map fun p => (j :: p.1, p.2)
        | _ => none := by
  obtain ⟨c, hc, hspace, hne⟩ := hcs
  obtain ⟨cs, rfl⟩ := List.head?_eq_some_iff.mp hc
  rw [scanItems?.eq_def]
  dsimp only
  rw [skipSpace_cons hspace]
  split
  next heq => exact absurd (List.cons.inj heq).1 hne
  next => rfl

theorem scanItems?_last (hcs : StartsItem cs)
    (h : scanValue? double? n depth cs = some (j, ']' :: rest)) :
    scanItems? double? (n + 1) depth start cs = some ([j], rest) := by
  rw [scanItems?_cons hcs, h]
  rfl

theorem scanItems?_next (hcs : StartsItem cs)
    (h : scanValue? double? n depth cs = some (j, ',' :: rest)) :
    scanItems? double? (n + 1) depth start cs =
      (scanItems? double? n depth false rest).map fun p => (j :: p.1, p.2) := by
  rw [scanItems?_cons hcs, h]
  rfl

/-- A field is read, and then a comma or the end of the object. -/
theorem scanFields?_cons {key : List Char} (hkey : scanString? cs = some (key, ':' :: rest)) :
    scanFields? double? (n + 1) depth start ('"' :: cs) =
      match scanValue? double? n depth rest with
      | none => none
      | some (j, rest) =>
          match skipSpace rest with
          | '\x7d' :: rest => some ([(String.ofList key, j)], rest)
          | ',' :: rest =>
              (scanFields? double? n depth false rest).map fun p =>
                ((String.ofList key, j) :: p.1, p.2)
          | _ => none := by
  rw [scanFields?.eq_def]
  dsimp only
  rw [skipSpace_cons (by decide)]
  split
  next heq => cases heq
  next heq =>
    cases heq
    rw [hkey]
    dsimp only
    rw [skipSpace_cons (by decide)]
    rfl
  next hno _ => exact (hno _ rfl).elim

theorem scanFields?_last {name : String} {cs' : List Char}
    (hname : scanString? cs = some (name.toList, ':' :: cs'))
    (h : scanValue? double? n depth cs' = some (j, '\x7d' :: rest)) :
    scanFields? double? (n + 1) depth start ('"' :: cs) = some ([(name, j)], rest) := by
  rw [scanFields?_cons hname, h, String.ofList_toList]
  rfl

theorem scanFields?_next {name : String} {cs' : List Char}
    (hname : scanString? cs = some (name.toList, ':' :: cs'))
    (h : scanValue? double? n depth cs' = some (j, ',' :: rest)) :
    scanFields? double? (n + 1) depth start ('"' :: cs) =
      (scanFields? double? n depth false rest).map fun p => ((name, j) :: p.1, p.2) := by
  rw [scanFields?_cons hname, h, String.ofList_toList]
  rfl

end

/-! ## Documents -/

/-- A written document starts like an item, also when its slashes are escaped. -/
theorem startsItem_slashed {j : Json} (hj : j.IsDocument) (rest : List Char) :
    StartsItem (slashed (j.write.toList ++ rest)) := by
  obtain ⟨c, cs, hcs, hc⟩ := exists_write_cons hj
  obtain ⟨hspace, hbracket, -⟩ := startsValue_spec hc
  refine ⟨c, ?_, hspace, hbracket⟩
  rw [head?_slashed, hcs]
  rfl

/-- A written field. -/
def fieldChars (name : String) (j : Json) : List Char :=
  '"' :: (body name.toList ++ '"' :: ':' :: j.write.toList)

theorem toList_writeItems_cons (j k : Json) (js : List Json) : (writeItems (j :: k :: js)).toList =
    j.write.toList ++ ',' :: (writeItems (k :: js)).toList := by
  simp [writeItems]

theorem toList_writeFields_single (name : String) (j : Json) :
    (writeFields [(name, j)]).toList = fieldChars name j := by
  simp [writeFields, toList_quote, fieldChars]

theorem toList_writeFields_cons (name : String) (j : Json) (f : String × Json)
    (fs : List (String × Json)) :
    (writeFields ((name, j) :: f :: fs)).toList =
      fieldChars name j ++ ',' :: (writeFields (f :: fs)).toList := by
  simp [writeFields, toList_quote, fieldChars]

/-- A name is read up to its value. -/
theorem scanString?_slashed_name (name : String) (cs : List Char) :
    scanString? (slashed (body name.toList ++ '"' :: ':' :: cs)) =
      some (name.toList, ':' :: slashed cs) := by
  rw [scanString?_slashed_body, slashed_cons_of_ne (by decide)]

/-- Whether a written document is read, and what follows is left. -/
def Reads (j : Json) : Prop := ∀ {n depth : Nat} {rest : List Char},
  j.write.toList.length ≤ n → j.write.toList.length ≤ depth → Follows rest →
    scanValue? NumberText.nearest? n depth (slashed (j.write.toList ++ rest)) =
      some (j, slashed rest)

/-- Whether written items are read. -/
def ReadsItems (js : List Json) : Prop :=
  ∀ {n depth : Nat} {start : Bool} {rest : List Char}, (js = [] → start = true) →
    (writeItems js).toList.length < n → (writeItems js).toList.length ≤ depth →
    scanItems? NumberText.nearest? n depth start (slashed ((writeItems js).toList ++ ']' :: rest)) =
      some (js, slashed rest)

/-- Whether written fields are read. -/
def ReadsFields (fs : List (String × Json)) : Prop :=
  ∀ {n depth : Nat} {start : Bool} {rest : List Char}, (fs = [] → start = true) →
    (writeFields fs).toList.length < n → (writeFields fs).toList.length ≤ depth →
    scanFields? NumberText.nearest? n depth start
        (slashed ((writeFields fs).toList ++ '\x7d' :: rest)) =
      some (fs, slashed rest)

/-- A word without brackets is the same when its slashes are escaped. -/
theorem reads_literal {j : Json} (hplain : '<' ∉ j.write.toList) (hne : j.write.toList ≠ [])
    (h : ∀ m depth rest, scanValue? NumberText.nearest? (m + 1) depth (j.write.toList ++ rest) =
      some (j, rest)) : Reads j := by
  intro n depth rest hn _ _
  have hpos : 0 < j.write.toList.length := List.length_pos_iff.mpr hne
  obtain ⟨m, rfl⟩ := Nat.exists_eq_add_of_lt (hpos.trans_le hn)
  rw [slashed_append hplain, Nat.zero_add]
  exact h m depth _

/-- A written number is read. -/
theorem reads_number {j : Json} (hj : j.IsDocument)
    (hnumber : (∃ n, j = .int n) ∨ ∃ x, j = .float x) : Reads j := by
  intro n depth rest hn _ hrest
  obtain ⟨t, hchars, ht, hvalue⟩ := exists_number hj hnumber
  obtain ⟨c, cs, hcs, -⟩ := ht.exists_cons
  have hplain : '<' ∉ t.chars := fun hmem => by cases ht.isNumberChar _ hmem
  rw [← hchars] at hn ⊢
  have hpos : 0 < t.chars.length := by simp [hcs]
  obtain ⟨m, rfl⟩ := Nat.exists_eq_add_of_lt (hpos.trans_le hn)
  rw [slashed_append hplain, Nat.zero_add, scanValue?_number ht hrest.endsNumber, hvalue,
    Option.map_some]

/-- A written string is read, though its slashes may be escaped. -/
theorem reads_str (s : String) : Reads (.str s) := by
  intro n depth rest hn _ _
  rw [write, toList_quote] at hn ⊢
  rw [List.length_cons] at hn
  obtain ⟨m, rfl⟩ := Nat.exists_eq_add_of_lt (Nat.succ_pos _ |>.trans_le hn)
  rw [List.cons_append, List.append_assoc, slashed_cons_of_ne (by decide), Nat.zero_add,
    scanValue?_string, List.singleton_append, scanString?_slashed_body, Option.map_some,
    String.ofList_toList]

theorem toList_write_arr (items : List Json) :
    (write (.arr items)).toList = '[' :: ((writeItems items).toList ++ [']']) := by simp [write]

theorem toList_write_obj (fields : List (String × Json)) :
    (write (.obj fields)).toList = '\x7b' :: ((writeFields fields).toList ++ ['\x7d']) := by
      simp [write]

/-- A written array is read if its items are. -/
theorem reads_arr {items : List Json} (h : ReadsItems items) : Reads (.arr items) := by
  intro n depth rest hn hdepth _
  rw [toList_write_arr] at hn hdepth ⊢
  simp only [List.length_cons, List.length_append, List.length_nil] at hn hdepth
  obtain ⟨m, rfl⟩ := Nat.exists_eq_add_of_lt (show 0 < n by omega)
  rw [List.cons_append, List.append_assoc, slashed_cons_of_ne (by decide), Nat.zero_add,
    scanValue?_array (by omega), List.singleton_append, h (fun _ => rfl) (by omega) (by omega),
    Option.map_some]

/-- A written object is read if its fields are.  They are in order, so they stay where they are. -/
theorem reads_obj {fields : List (String × Json)} (hsorted : fields.Pairwise NameBefore)
    (h : ReadsFields fields) : Reads (.obj fields) := by
  intro n depth rest hn hdepth _
  rw [toList_write_obj] at hn hdepth ⊢
  simp only [List.length_cons, List.length_append, List.length_nil] at hn hdepth
  obtain ⟨m, rfl⟩ := Nat.exists_eq_add_of_lt (show 0 < n by omega)
  rw [List.cons_append, List.append_assoc, slashed_cons_of_ne (by decide), Nat.zero_add,
    scanValue?_object (by omega), List.singleton_append, h (fun _ => rfl) (by omega) (by omega),
    Option.map_some, object_of_sorted hsorted]

theorem readsItems_nil : ReadsItems [] := by
  intro n depth start rest hstart hn _
  obtain ⟨m, rfl⟩ := Nat.exists_eq_add_of_lt (Nat.zero_lt_of_lt hn)
  rw [hstart rfl, Nat.zero_add, writeItems, String.toList_empty, List.nil_append,
    slashed_cons_of_ne (by decide)]
  rfl

/-- Written items are read if the first one is, and the others are. -/
theorem readsItems_cons {j : Json} {js : List Json} (hj : j.IsDocument) (hvalue : Reads j)
    (hitems : ReadsItems js) : ReadsItems (j :: js) := by
  intro n depth start rest _ hn hdepth
  obtain ⟨m, rfl⟩ := Nat.exists_eq_add_of_lt (Nat.zero_lt_of_lt hn)
  rw [Nat.zero_add]
  cases js with
  | nil =>
      rw [writeItems] at hn hdepth ⊢
      refine scanItems?_last (startsItem_slashed hj _) ?_
      rw [hvalue (by omega) hdepth (follows_cons (.inr (.inl rfl))), slashed_cons_of_ne (by decide)]
  | cons k js =>
      rw [toList_writeItems_cons] at hn hdepth ⊢
      simp only [List.length_append, List.length_cons] at hn hdepth
      rw [List.append_assoc, List.cons_append]
      have hfirst := @hvalue m depth (',' :: ((writeItems (k :: js)).toList ++ ']' :: rest))
        (by omega) (by omega) (follows_cons (.inl rfl))
      rw [slashed_cons_of_ne (by decide) (_ ++ ']' :: rest)] at hfirst
      rw [scanItems?_next (startsItem_slashed hj _) hfirst, hitems (by simp) (by omega) (by omega),
        Option.map_some]

theorem readsFields_nil : ReadsFields [] := by
  intro n depth start rest hstart hn _
  obtain ⟨m, rfl⟩ := Nat.exists_eq_add_of_lt (Nat.zero_lt_of_lt hn)
  rw [hstart rfl, Nat.zero_add, writeFields, String.toList_empty, List.nil_append,
    slashed_cons_of_ne (by decide)]
  rfl

/-- Written fields are read if the value of the first one is, and the others are. -/
theorem readsFields_cons {name : String} {j : Json} {fs : List (String × Json)} (hvalue : Reads j)
    (hfields : ReadsFields fs) : ReadsFields ((name, j) :: fs) := by
  intro n depth start rest _ hn hdepth
  obtain ⟨m, rfl⟩ := Nat.exists_eq_add_of_lt (Nat.zero_lt_of_lt hn)
  rw [Nat.zero_add]
  have hsplit : ∀ more : List Char, slashed (fieldChars name j ++ more) =
      '"' :: slashed (body name.toList ++ '"' :: ':' :: (j.write.toList ++ more)) := fun more => by
    rw [fieldChars, List.cons_append, slashed_cons_of_ne (by decide)]
    simp
  cases fs with
  | nil =>
      rw [toList_writeFields_single] at hn hdepth ⊢
      simp only [fieldChars, List.length_append, List.length_cons] at hn hdepth
      rw [hsplit]
      refine scanFields?_last (scanString?_slashed_name _ _) ?_
      rw [hvalue (by omega) (by omega) (follows_cons (.inr (.inr rfl))),
        slashed_cons_of_ne (by decide)]
  | cons f fs =>
      rw [toList_writeFields_cons] at hn hdepth ⊢
      simp only [fieldChars, List.length_append, List.length_cons] at hn hdepth
      rw [List.append_assoc, List.cons_append, hsplit]
      have hfirst := @hvalue m depth (',' :: ((writeFields (f :: fs)).toList ++ '\x7d' :: rest))
        (by omega) (by omega) (follows_cons (.inl rfl))
      rw [slashed_cons_of_ne (by decide) (_ ++ '\x7d' :: rest)] at hfirst
      rw [scanFields?_next (scanString?_slashed_name _ _) hfirst,
        hfields (by simp) (by omega) (by omega),
        Option.map_some]

mutual

/-- Every written document is read. -/
theorem reads_of_isDocument : {j : Json} → j.IsDocument → Reads j
  | .null, _ => reads_literal (by decide) (by decide) fun _ _ _ => rfl
  | .bool true, _ => reads_literal (by decide) (by decide) fun _ _ _ => rfl
  | .bool false, _ => reads_literal (by decide) (by decide) fun _ _ _ => rfl
  | .int n, hj => reads_number hj (.inl ⟨n, rfl⟩)
  | .float x, hj => reads_number hj (.inr ⟨x, rfl⟩)
  | .str s, _ => reads_str s
  | .arr items, hj => reads_arr (readsItems_of_areDocuments (show AreDocuments items from hj))
  | .obj _, hj => reads_obj hj.1 (readsFields_of_areFields hj.2)

theorem readsItems_of_areDocuments : {js : List Json} → AreDocuments js → ReadsItems js
  | [], _ => readsItems_nil
  | _ :: _, hj => readsItems_cons hj.1 (reads_of_isDocument hj.1) (readsItems_of_areDocuments hj.2)

theorem readsFields_of_areFields : {fs : List (String × Json)} → AreFields fs → ReadsFields fs
  | [], _ => readsFields_nil
  | (_, _) :: _, hj => readsFields_cons (reads_of_isDocument hj.1) (readsFields_of_areFields hj.2)

end

/-- The document that a text spells, its numbers read exactly. -/
noncomputable def readExactly? (text : String) : Option Json :=
  readBy? NumberText.nearest? text.toList.length text

/-- A written document is read as it is. -/
theorem readExactly?_slashed {j : Json} (hj : j.IsDocument) :
    readExactly? (String.ofList (slashed j.write.toList)) = some j := by
  have hlength := length_le_slashed j.write.toList
  have hend : Follows [] := by rintro _ ⟨⟩
  have hread := @reads_of_isDocument j hj (2 * (slashed j.write.toList).length + 2)
    (slashed j.write.toList).length [] (by omega) hlength hend
  rw [List.append_nil] at hread
  rw [readExactly?, readBy?, String.toList_ofList, hread]
  rfl

/-! ## Control characters -/

/-- A written number has no control characters. -/
theorem isPrintable_number {j : Json} (hj : j.IsDocument)
    (hnumber : (∃ n, j = .int n) ∨ ∃ x, j = .float x) : IsPrintable j.write.toList := by
  obtain ⟨t, hchars, ht, -⟩ := exists_number hj hnumber
  rw [← hchars]
  intro c hc
  have hnumber := ht.isNumberChar c hc
  simp only [isNumberChar, Bool.or_eq_true, beq_iff_eq] at hnumber
  rcases hnumber with (((hdigit | rfl) | rfl) | rfl) | rfl
  · have hdigits : '0'.toNat ≤ c.toNat := by
      simp only [Char.isDigit, Bool.and_eq_true, decide_eq_true_eq] at hdigit
      exact hdigit.1
    exact le_trans (by decide) hdigits
  all_goals decide

mutual

/-- A written document has no control characters. -/
theorem isPrintable_write : {j : Json} → j.IsDocument → IsPrintable j.write.toList
  | .null, _ => by
      have h : IsPrintable (write .null).toList := by decide
      exact h
  | .bool b, _ => by
      have h : IsPrintable (write (.bool b)).toList := by cases b <;> decide
      exact h
  | .int n, hj => isPrintable_number hj (.inl ⟨n, rfl⟩)
  | .float x, hj => isPrintable_number hj (.inr ⟨x, rfl⟩)
  | .str s, _ => isPrintable_quote s
  | .arr items, hj => by
      have hitems := isPrintable_writeItems (show AreDocuments items from hj)
      rw [toList_write_arr, isPrintable_cons, isPrintable_append]
      exact ⟨by decide, hitems, by simp [IsPrintable]⟩
  | .obj _, hj => by
      have hfields := isPrintable_writeFields hj.2
      rw [toList_write_obj, isPrintable_cons, isPrintable_append]
      exact ⟨by decide, hfields, by simp [IsPrintable]⟩

theorem isPrintable_writeItems : {js : List Json} → AreDocuments js →
    IsPrintable (writeItems js).toList
  | [], _ => by simp [writeItems, IsPrintable]
  | j :: js, hj => by
      have hfirst := isPrintable_write hj.1
      have hmore := isPrintable_writeItems hj.2
      cases js with
      | nil => exact hfirst
      | cons k js =>
          rw [toList_writeItems_cons, isPrintable_append, isPrintable_cons]
          exact ⟨hfirst, by decide, hmore⟩

theorem isPrintable_writeFields : {fs : List (String × Json)} → AreFields fs →
    IsPrintable (writeFields fs).toList
  | [], _ => by simp [writeFields, IsPrintable]
  | (name, j) :: fs, hj => by
      have hfirst : IsPrintable (fieldChars name j) := by
        have hname := isPrintable_quote name
        rw [toList_quote, isPrintable_cons, isPrintable_append] at hname
        simp only [fieldChars, isPrintable_cons, isPrintable_append]
        exact ⟨by decide, hname.2.1, by decide, by decide, isPrintable_write hj.1⟩
      have hmore := isPrintable_writeFields hj.2
      cases fs with
      | nil => exact (toList_writeFields_single name j).symm ▸ hfirst
      | cons f fs =>
          rw [toList_writeFields_cons, isPrintable_append, isPrintable_cons]
          exact ⟨hfirst, by decide, hmore⟩

end

end PageLoom.Json
