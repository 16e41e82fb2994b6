import PageLoom.Function.Chart
import PageLoom.Proofs.Call.Arguments
import PageLoom.Proofs.Decimal.Integers
import PageLoom.Proofs.Json.RoundTrip
import PageLoom.Span.Fresh

/-!
# Charts cannot be broken by their data

The markup of a chart ends with its script, and `</script` stands nowhere else in it, in whatever
case.  The configuration in the script is text of one line without `</`, and read as JSON it is the
intended document.  So it has the title and the labels that are given, and as many labels as data
points.

A data point is the number that is given, or null if that is not finite (`Plots`).  An integer of
more than 53 bits need not be a double, and then the data point is the double nearest to it
(`not_shows_given_integer`).
-/

namespace PageLoom.Chart

open Json

/-! ## Ends of scripts -/

/-- Whether a text starts with the end of a script, in whatever case. -/
def closesScript : List Char → Bool
  | '<' :: '/' :: cs => (cs.take 6).map Char.toLower == "script".toList
  | _ => false

/-- What stands from each place on where a script ends. -/
def closings (cs : List Char) : List (List Char) := cs.tails.filter closesScript

/-- What closes a script starts with `</`. -/
theorem exists_of_closesScript {cs : List Char} (h : closesScript cs = true) :
    ∃ rest, cs = '<' :: '/' :: rest := by
  unfold closesScript at h
  split at h
  next cs => exact ⟨cs, rfl⟩
  next => cases h

/-- A character at which no script is closed does not matter. -/
theorem closings_cons_of_not {c : Char} {cs : List Char} (h : closesScript (c :: cs) = false) :
    closings (c :: cs) = closings cs := by
  rw [closings, List.tails_cons, List.filter_cons_of_neg (by rw [h]; exact Bool.false_ne_true),
    closings]

/-- A text without `</` ends no script, unless it is continued with a slash. -/
theorem closings_append_of_unclosed {xs : List Char} (h : ¬ ['<', '/'] <:+: xs) {cs : List Char}
    (hcs : cs.head? ≠ some '/') : closings (xs ++ cs) = closings cs := by
  induction xs with
  | nil => rfl
  | cons x xs ih =>
      rw [List.infix_cons_iff, not_or] at h
      rw [List.cons_append, closings_cons_of_not ?_, ih h.2]
      refine Bool.eq_false_iff.mpr fun hclose => ?_
      obtain ⟨rest, hrest⟩ := exists_of_closesScript hclose
      obtain ⟨rfl, hslash⟩ := List.cons_eq_cons.mp hrest
      cases xs with
      | nil =>
          rw [List.nil_append] at hslash
          exact hcs (by rw [hslash]; rfl)
      | cons y xs =>
          obtain ⟨rfl, -⟩ := List.cons_eq_cons.mp hslash
          exact h.1 ⟨xs, rfl⟩

/-! ## The markup -/

/-- Whether an identifier is made of letters and digits. -/
def IsIdentifier (id : String) : Prop := ∀ c ∈ id.toList, c.isAlphanum = true

/-- The identifiers that count up from a seed are made of digits. -/
theorem isIdentifier_ofSeed (seed : Nat) (place : List Nat) :
    IsIdentifier (Fresh.ofSeed seed place) := by
  have hdigit : ∀ n < 16, (hexDigitOf n).isAlphanum = true := by decide
  have hdigits : ∀ count n, ∀ c ∈ hexDigits n count, c.isAlphanum = true := by
    intro count
    induction count with
    | zero => simp [hexDigits]
    | succ count ih =>
        intro n
        rw [hexDigits, List.forall_mem_append, List.forall_mem_singleton]
        exact ⟨ih (n / 16), hdigit _ (Nat.mod_lt n (by decide))⟩
  rw [IsIdentifier, Fresh.ofSeed, String.toList_ofList]
  exact hdigits 32 _

/-- The markup before the configuration. -/
def opening (id : String) (width height : Float) : String :=
  "<div class=\"chart\" style=\"position:relative;width:" ++ Decimal.plain width ++
    "px;height:" ++ Decimal.plain height ++ "px\">\n" ++
  "<canvas id=\"chart_" ++ id ++ "\"></canvas>\n" ++
  "</div>\n" ++
  "<script>\n" ++
  "document.addEventListener(\"DOMContentLoaded\", function () \x7b\n" ++
  "new Chart(document.getElementById(\"chart_" ++ id ++ "\"), "

/-- The markup of a chart is its opening, its configuration and the end of its script. -/
theorem markup_eq (id : String) (width height : Float) (config : Json) :
    markup id width height config =
      opening id width height ++ embedded config ++ ");\n" ++ "\x7d);\n" ++ "</script>" := rfl

/-- Whether a text has no end of a script, whatever follows it. -/
structure Quiet (s : String) : Prop where
  head : s.toList.head? ≠ some '/'
  closings_append : ∀ cs : List Char, cs.head? ≠ some '/' → closings (s.toList ++ cs) = closings cs

theorem head?_append_ne {xs ys : List Char} (hxs : xs.head? ≠ some '/')
    (hys : ys.head? ≠ some '/') :
    (xs ++ ys).head? ≠ some '/' := by
  rw [List.head?_append]
  intro hhead
  rcases Option.or_eq_some_iff.mp hhead with h | ⟨-, h⟩
  · exact hxs h
  · exact hys h

/-- Quiet texts one after the other are quiet: no `</` arises where they meet. -/
theorem Quiet.append {s t : String} (hs : Quiet s) (ht : Quiet t) : Quiet (s ++ t) where
  head := by
    rw [String.toList_append]
    exact head?_append_ne hs.head ht.head
  closings_append cs hcs := by
    rw [String.toList_append, List.append_assoc, hs.closings_append _ (head?_append_ne ht.head hcs),
      ht.closings_append _ hcs]

/-- A text without `</` is quiet if it does not start with a slash. -/
theorem quiet_of_unclosed {s : String} (h : ¬ ['<', '/'] <:+: s.toList)
    (hhead : s.toList.head? ≠ some '/') :
    Quiet s where
  head := hhead
  closings_append _ hcs := closings_append_of_unclosed h hcs

theorem quiet_of_forall {s : String} (h : ∀ c ∈ s.toList, c ≠ '<' ∧ c ≠ '/') : Quiet s :=
  quiet_of_unclosed (fun hclose => (h '<' (hclose.subset List.mem_cons_self)).1 rfl)
    fun hhead => (h '/' (List.mem_of_head? hhead)).2 rfl

/-- An identifier has neither brackets nor slashes. -/
theorem quiet_identifier {id : String} (h : IsIdentifier id) : Quiet id := by
  refine quiet_of_forall fun c hc => ⟨?_, ?_⟩
  · rintro rfl
    cases h _ hc
  · rintro rfl
    cases h _ hc

theorem quiet_digits {s : String} (h : ∀ c ∈ s.toList, c.isDigit = true) : Quiet s :=
  quiet_identifier fun c hc => by rw [Char.isAlphanum, h c hc, Bool.or_true]

/-- A number that is written plainly has neither brackets nor slashes. -/
theorem quiet_plain (x : Float) : Quiet (Decimal.plain x) := by
  have hsign : ∀ s, Quiet (Decimal.signText s) := by
    intro s
    cases s <;> exact quiet_of_unclosed (by decide) (by decide)
  rw [Decimal.plain]
  split
  next => exact quiet_of_unclosed (by decide) (by decide)
  next s _ => exact (hsign s).append (quiet_of_unclosed (by decide) (by decide))
  next s _ => exact (hsign s).append (quiet_of_unclosed (by decide) (by decide))
  next s m hx =>
    have hfinite : (Decimal.Parts.ofFloat x).finite? = some (s, m) := by rw [hx]; rfl
    obtain ⟨-, hne⟩ := Decimal.roundsTo_shortest .up (Decimal.isDouble_of_finite? hfinite)
      (Decimal.mantissa_pos_of_finite hx)
    obtain ⟨hwhole, hplaces, -⟩ := positional_spec hne
    have hwhole := quiet_digits hwhole.isDigits.digits
    have hplaces := quiet_digits hplaces
    split
    next heq =>
      rw [heq] at hwhole
      exact (hsign s).append hwhole
    next heq =>
      rw [heq] at hwhole hplaces
      exact (((hsign s).append hwhole).append (quiet_of_unclosed (by decide) (by decide))).append
        hplaces

/-- Nothing closes a script before the configuration starts. -/
theorem quiet_opening {id : String} (hid : IsIdentifier id) (width height : Float) :
    Quiet (opening id width height) := by
  have hid := quiet_identifier hid
  have hstart : Quiet "<div class=\"chart\" style=\"position:relative;width:" :=
    quiet_of_unclosed (by decide) (by decide)
  have hheight : Quiet "px;height:" := quiet_of_unclosed (by decide) (by decide)
  have hbox : Quiet "px\">\n" := quiet_of_unclosed (by decide) (by decide)
  have hcanvas : Quiet "<canvas id=\"chart_" := quiet_of_unclosed (by decide) (by decide)
  have hends : Quiet "\"></canvas>\n" := ⟨by decide, fun _ _ => rfl⟩
  have hdiv : Quiet "</div>\n" := ⟨by decide, fun _ _ => rfl⟩
  have hscript : Quiet "<script>\n" := quiet_of_unclosed (by decide) (by decide)
  have hloaded : Quiet "document.addEventListener(\"DOMContentLoaded\", function () \x7b\n" :=
    quiet_of_unclosed (by decide) (by decide)
  have hcall : Quiet "new Chart(document.getElementById(\"chart_" :=
    quiet_of_unclosed (by decide) (by decide)
  have hcomma : Quiet "\"), " := quiet_of_unclosed (by decide) (by decide)
  have hbox :=
    (((hstart.append (quiet_plain width)).append hheight).append (quiet_plain height)).append hbox
  have hcanvas := ((hbox.append hcanvas).append hid).append hends
  have hscript := ((hcanvas.append hdiv).append hscript).append hloaded
  exact ((hscript.append hcall).append hid).append hcomma

/-- The configuration is written with `<\/` for every `</`. -/
theorem toList_embedded (config : Json) :
    (embedded config).toList = slashed config.write.toList := by
  rw [embedded, String.toList_ofList, slashed]

/-- So nothing in the configuration closes the script. -/
theorem quiet_embedded {config : Json} (h : config.IsDocument) : Quiet (embedded config) := by
  obtain ⟨c, cs, hcs, hc⟩ := exists_write_cons h
  refine quiet_of_unclosed ?_ ?_
  · rw [toList_embedded]
    exact not_infix_slashed _
  · rw [toList_embedded, head?_slashed, hcs]
    rintro ⟨⟩
    cases hc

/-- The script of a chart ends where the markup ends, and nowhere else. -/
theorem closings_markup {id : String} (hid : IsIdentifier id) (width height : Float) {config : Json}
    (h : config.IsDocument) :
    closings (markup id width height config).toList = ["</script>".toList] := by
  have hend : Quiet ");\n" := quiet_of_unclosed (by decide) (by decide)
  have hbrace : Quiet "\x7d);\n" := quiet_of_unclosed (by decide) (by decide)
  have hclose : closings "</script>".toList = ["</script>".toList] := by decide
  have hbefore :=
    (((quiet_opening hid width height).append (quiet_embedded h)).append hend).append hbrace
  rw [markup_eq, String.toList_append, hbefore.closings_append _ (by decide), hclose]

/-! ## Configurations -/

/-- The value of a field. -/
def field? (name : String) : Json → Option Json
  | .obj fields => lookupName name fields
  | _ => none

/-- The items of an array. -/
def items? : Json → Option (List Json)
  | .arr items => some items
  | _ => none

/-- The labels of a chart. -/
def labels? (config : Json) : Option (List Json) := do
  items? (← field? "labels" (← field? "data" config))

/-- The data points of a chart. -/
def points? (config : Json) : Option (List Json) := do
  match ← items? (← field? "datasets" (← field? "data" config)) with
  | [set] => items? (← field? "data" set)
  | _ => none

/-- The text of the title of a chart. -/
def title? (config : Json) : Option Json := do
  field? "text" (← field? "title" (← field? "plugins" (← field? "options" config)))

theorem isDocument_fields {fields : List (String × Json)}
    (h : fields.Forall fun f => f.2.IsDocument) :
    (object fields).IsDocument :=
  isDocument_object (List.forall_iff_forall_mem.mp h)

theorem isDocument_arr {js : List Json} (h : ∀ j ∈ js, j.IsDocument) : (Json.arr js).IsDocument :=
  areDocuments_iff.mpr h

theorem isDocument_plugins (title : Option String) : (plugins title).IsDocument := by
  refine isDocument_fields ⟨isDocument_fields ?legend, isDocument_fields ?title⟩
  case legend => exact trivial
  case title => exact ⟨trivial, trivial⟩

theorem isDocument_axis (label : Option String) : (axis label).IsDocument := by
  cases label with
  | none => exact isDocument_fields trivial
  | some label => exact isDocument_fields (isDocument_fields ⟨trivial, trivial⟩)

theorem isDocument_points (ys : List Float) : (Json.arr (ys.map numberJson)).IsDocument :=
  isDocument_arr (List.forall_mem_map.mpr fun y _ => Value.isDocument_toJson (.float y))

section Configurations

variable (x : List Json) (labels : List String) (y : List Float)
  (title xLabel yLabel : Option String)
  (vertical : Bool)

/-- The configuration of a line chart is a document of JSON. -/
theorem isDocument_lineConfig (h : ∀ j ∈ x, j.IsDocument) :
    (lineConfig x y title xLabel yLabel).IsDocument := by
  refine isDocument_fields ⟨trivial, isDocument_fields ⟨isDocument_arr h, isDocument_arr ?set⟩,
    isDocument_fields ⟨trivial, isDocument_plugins title, isDocument_fields ?scales⟩⟩
  case set =>
    exact List.forall_mem_singleton.mpr (isDocument_fields ⟨trivial, isDocument_points y, trivial⟩)
  case scales => exact ⟨isDocument_axis xLabel, isDocument_axis yLabel⟩

/-- Its labels are the items of `x`. -/
theorem labels?_lineConfig : labels? (lineConfig x y title xLabel yLabel) = some x := by
  simp [labels?, lineConfig, object, field?, lookupName_insertName, items?]

theorem points?_lineConfig :
    points? (lineConfig x y title xLabel yLabel) = some (y.map numberJson) := by
  simp [points?, lineConfig, object, field?, lookupName_insertName, items?]

theorem title?_lineConfig :
    title? (lineConfig x y title xLabel yLabel) = some (.str (title.getD "")) := by
  simp [title?, lineConfig, plugins, object, field?, lookupName_insertName]

/-- The configuration of a bar chart is a document of JSON. -/
theorem isDocument_barConfig : (barConfig labels y title vertical).IsDocument := by
  refine isDocument_fields ⟨trivial,
    isDocument_fields ⟨isDocument_arr ?labels, isDocument_arr ?set⟩,
    isDocument_fields ⟨trivial, trivial, isDocument_plugins title⟩⟩
  case labels => exact List.forall_mem_map.mpr fun _ _ => trivial
  case set => exact List.forall_mem_singleton.mpr (isDocument_fields ⟨trivial, isDocument_points y⟩)

/-- Its labels are the texts of the labels. -/
theorem labels?_barConfig :
    labels? (barConfig labels y title vertical) = some (labels.map .str) := by
  simp [labels?, barConfig, object, field?, lookupName_insertName, items?]

theorem points?_barConfig :
    points? (barConfig labels y title vertical) = some (y.map numberJson) := by
  simp [points?, barConfig, object, field?, lookupName_insertName, items?]

theorem title?_barConfig :
    title? (barConfig labels y title vertical) = some (.str (title.getD "")) := by
  simp [title?, barConfig, plugins, object, field?, lookupName_insertName]

end Configurations

/-! ## What is asked for -/

/-- The line chart that arguments ask for: the numbers `y` over the items of `x`, or over the
indices. -/
structure AsksLine (args : Arguments) (x : List Json) (numbers : List Value)
    (title xLabel yLabel : Option String) : Prop where
  given : ∃ v, args.get? "y" = some v ∧ v.items? = some numbers
  counted : args.get? "x" = none → x = (List.range numbers.length).map fun i => .int (Int64.ofNat i)
  marked : ∀ v, args.get? "x" = some v → ∃ items, v.items? = some items ∧ x = items.map Value.toJson
  aligned : x.length = numbers.length
  title : args.get? "title" = title.map Value.str
  xLabel : args.get? "x_label" = xLabel.map Value.str
  yLabel : args.get? "y_label" = yLabel.map Value.str

/-- The bar chart that arguments ask for: a bar for each of the `values`, under the text of a
label. -/
structure AsksBar (args : Arguments) (labels : List String) (numbers : List Value)
    (title : Option String) (vertical : Bool) : Prop where
  given : ∃ v, args.get? "values" = some v ∧ v.items? = some numbers
  marked : ∃ v items, args.get? "labels" = some v ∧ v.items? = some items ∧
    labels = items.map Value.text
  aligned : labels.length = numbers.length
  title : args.get? "title" = title.map Value.str
  vertical : (args.get? "vertical" = none ∧ vertical = false) ∨
    ∃ v, args.get? "vertical" = some v ∧ Arguments.flagOf? v = some vertical

section Asking

variable {id : String} {args : Arguments} {f : Fragment}

/-- A chart is its markup, and it needs the library. -/
theorem exists_of_embed_eq_ok {config : Json} (h : embed id args config = .ok f) :
    ∃ width height, f = ⟨markup id width height config, [library]⟩ := by
  obtain ⟨width, -, h⟩ := bind_eq_ok_iff.mp h
  obtain ⟨height, -, h⟩ := bind_eq_ok_iff.mp h
  exact ⟨width.getD 600, height.getD 400, (Except.ok.inj h).symm⟩

/-- Over the `x` axis stand the items of `x`, or else the indices, and as many as there are data
points. -/
theorem xValues_eq_ok_iff {count : Nat} {x : List Json} : xValues args count = .ok x ↔
    x.length = count ∧
      (args.get? "x" = none → x = (List.range count).map fun i => .int (Int64.ofNat i)) ∧
      ∀ v, args.get? "x" = some v → ∃ items, v.items? = some items ∧
        x = items.map Value.toJson := by
  rw [xValues]
  split
  next hnone =>
    constructor
    · intro h
      cases h
      simp [hnone]
    · rintro ⟨-, h, -⟩
      rw [h hnone]
      rfl
  next v hv =>
    rw [bind_eq_ok_iff]
    simp only [Arguments.items_eq_ok_iff, hv]
    constructor
    · rintro ⟨items, ⟨_, ⟨⟩, hitems⟩, h⟩
      split at h
      next => cases h
      next hlength =>
        cases h
        refine ⟨?_, nofun, ?_⟩
        · rw [List.length_map]
          exact not_not.mp hlength
        · rintro _ ⟨⟩
          exact ⟨items, hitems, rfl⟩
    · rintro ⟨hlength, -, h⟩
      obtain ⟨items, hitems, rfl⟩ := h v rfl
      rw [List.length_map] at hlength
      refine ⟨items, ⟨v, rfl, hitems⟩, ?_⟩
      rw [if_neg (not_not.mpr hlength)]
      rfl

/-- What a line chart that is made shows, and from which arguments. -/
theorem exists_of_line_eq_ok (h : line id args = .ok f) : ∃ x y numbers title xLabel yLabel,
    AsksLine args x numbers title xLabel yLabel ∧
      List.Forall₂ (fun v y => v.number? = some y) numbers y ∧
      ∃ width height, f = ⟨markup id width height (lineConfig x y title xLabel yLabel),
        [library]⟩ := by
  obtain ⟨y, hy, h⟩ := bind_eq_ok_iff.mp h
  obtain ⟨x, hx, h⟩ := bind_eq_ok_iff.mp h
  obtain ⟨title, htitle, h⟩ := bind_eq_ok_iff.mp h
  obtain ⟨xLabel, hxLabel, h⟩ := bind_eq_ok_iff.mp h
  obtain ⟨yLabel, hyLabel, h⟩ := bind_eq_ok_iff.mp h
  obtain ⟨v, numbers, hv, hnumbers, hy⟩ := Arguments.numbers_eq_ok_iff.mp hy
  rw [← hy.length_eq, xValues_eq_ok_iff] at hx
  obtain ⟨haligned, hcounted, hmarked⟩ := hx
  exact ⟨x, y, numbers, title, xLabel, yLabel,
    { given := ⟨v, hv, hnumbers⟩
      counted := hcounted
      marked := hmarked
      aligned := haligned
      title := Arguments.string?_eq_ok_iff.mp htitle
      xLabel := Arguments.string?_eq_ok_iff.mp hxLabel
      yLabel := Arguments.string?_eq_ok_iff.mp hyLabel }, hy, exists_of_embed_eq_ok h⟩

/-- What a bar chart that is made shows, and from which arguments. -/
theorem exists_of_bar_eq_ok (h : bar id args = .ok f) : ∃ labels y numbers title vertical,
    AsksBar args labels numbers title vertical ∧
      List.Forall₂ (fun v y => v.number? = some y) numbers y ∧
      ∃ width height, f = ⟨markup id width height (barConfig labels y title vertical),
        [library]⟩ := by
  obtain ⟨labels, hlabels, h⟩ := bind_eq_ok_iff.mp h
  obtain ⟨y, hy, h⟩ := bind_eq_ok_iff.mp h
  dsimp only at h
  split at h
  next => cases h
  next hlength =>
    obtain ⟨title, htitle, h⟩ := bind_eq_ok_iff.mp h
    obtain ⟨vertical, hvertical, h⟩ := bind_eq_ok_iff.mp h
    obtain ⟨v, numbers, hv, hnumbers, hy⟩ := Arguments.numbers_eq_ok_iff.mp hy
    obtain ⟨w, items, hw, hitems, rfl⟩ := Arguments.labels_eq_ok_iff.mp hlabels
    have hflag : (args.get? "vertical" = none ∧ vertical.getD false = false) ∨
        ∃ v, args.get? "vertical" = some v ∧ Arguments.flagOf? v = some (vertical.getD false) := by
      rcases Arguments.optional_eq_ok_iff.mp hvertical with ⟨hnone, rfl⟩ | ⟨v, b, hv, hb, rfl⟩
      · exact .inl ⟨hnone, rfl⟩
      · exact .inr ⟨v, hv, hb⟩
    exact ⟨_, y, numbers, title, _,
      { given := ⟨v, hv, hnumbers⟩
        marked := ⟨w, items, hw, hitems, rfl⟩
        aligned := (not_not.mp hlength).trans hy.length_eq.symm
        title := Arguments.string?_eq_ok_iff.mp htitle
        vertical := hflag }, hy, exists_of_embed_eq_ok h⟩

end Asking

/-! ## What is shown -/

/-- Whether a data point is a number: the same double, or the double nearest to an integer, or null
for a double that is not finite. -/
inductive Plots : Value → Json → Prop
  | double {x : Float} : x.isFinite = true → Plots (.float x) (.float x)
  | gap {x : Float} : x.isFinite = false → Plots (.float x) .null
  | integer {n : Int64} {y : Float} {x : Decimal.Dyadic} :
      (Decimal.Parts.ofFloat y).finite? = some (decide (n.toInt < 0), x) → x.IsDouble →
      Decimal.IsNearest n.toInt.natAbs x → Plots (.int n) (.float y)

/-- A data point is written so that it can be read back. -/
theorem plots_numberJson {v : Value} {y : Float} (h : v.number? = some y) :
    Plots v (numberJson y) := by
  cases v with
  | int n =>
      have hsmall : n.toInt.natAbs < 2 ^ 64 := by
        have hlo := n.le_toInt
        have hhi := n.toInt_lt
        omega
      obtain ⟨x, hx, hdouble, hnearest⟩ := Decimal.exists_nearest_ofInt hsmall
      cases h
      have hfinite := Decimal.isSome_finite?_iff.mp (Option.isSome_of_eq_some hx)
      rw [numberJson, Value.toJson, if_pos hfinite]
      exact .integer hx hdouble hnearest
  | float x =>
      cases h
      rw [numberJson, Value.toJson]
      split
      next hfinite => exact .double hfinite
      next hfinite => exact .gap (Bool.eq_false_iff.mpr hfinite)
  | _ => cases h

/-- Whether the script of a chart holds a configuration, and what it shows. -/
structure Shows (id : String) (f : Fragment) (config : Json) (labels : List Json)
    (numbers : List Value)
    (title : Option String) : Prop where
  closes : closings f.markup.toList = ["</script>".toList]
  reads : ∃ width height text,
    f.markup = opening id width height ++ text ++ ");\n" ++ "\x7d);\n" ++ "</script>" ∧
      IsPrintable text.toList ∧ ¬ ['<', '/'] <:+: text.toList ∧ readExactly? text = some config
  titled : title? config = some (.str (title.getD ""))
  labelled : labels? config = some labels
  plotted : ∃ points, points? config = some points ∧ List.Forall₂ Plots numbers points
  aligned : labels.length = numbers.length

/-- The markup of a chart shows what its configuration says. -/
theorem shows_markup {id : String} (hid : IsIdentifier id) (width height : Float) {config : Json}
    (hconfig : config.IsDocument) {labels : List Json} {numbers : List Value} {y : List Float}
    {title : Option String} (htitle : title? config = some (.str (title.getD "")))
    (hlabels : labels? config = some labels) (hpoints : points? config = some (y.map numberJson))
    (hy : List.Forall₂ (fun v y => v.number? = some y) numbers y)
    (haligned : labels.length = numbers.length) :
    Shows id ⟨markup id width height config, [library]⟩ config labels numbers title where
  closes := closings_markup hid width height hconfig
  reads := by
    have hprintable : IsPrintable (embedded config).toList := by
      rw [toList_embedded]
      exact isPrintable_slashed (isPrintable_write hconfig)
    have hunclosed : ¬ ['<', '/'] <:+: (embedded config).toList := by
      rw [toList_embedded]
      exact not_infix_slashed _
    exact ⟨width, height, embedded config, markup_eq id width height config, hprintable, hunclosed,
      readExactly?_slashed hconfig⟩
  titled := htitle
  labelled := hlabels
  plotted := ⟨_, hpoints, List.forall₂_map_right_iff.mpr (hy.imp fun _ _ => plots_numberJson)⟩
  aligned := haligned

theorem AsksLine.isDocument {args : Arguments} {x : List Json} {numbers : List Value}
    {title xLabel yLabel : Option String} (h : AsksLine args x numbers title xLabel yLabel) :
    ∀ j ∈ x, j.IsDocument := by
  cases hx : args.get? "x" with
  | none =>
      rw [h.counted hx]
      exact List.forall_mem_map.mpr fun _ _ => trivial
  | some v =>
      obtain ⟨items, -, rfl⟩ := h.marked v hx
      exact List.forall_mem_map.mpr fun item _ => Value.isDocument_toJson item

/-- Whether the script of a chart cannot be broken by what the chart shows. -/
structure Unbroken (id : String) : Prop where
  line : ∀ args f, line id args = .ok f → ∃ x y numbers title xLabel yLabel,
    AsksLine args x numbers title xLabel yLabel ∧
      Shows id f (lineConfig x y title xLabel yLabel) x numbers title
  bar : ∀ args f, bar id args = .ok f → ∃ labels y numbers title vertical,
    AsksBar args labels numbers title vertical ∧
      Shows id f (barConfig labels y title vertical) (labels.map .str) numbers title

/-- The scripts of all charts are unbroken, whatever the arguments are. -/
theorem scripts_unbroken {id : String} (hid : IsIdentifier id) : Unbroken id where
  line args f h := by
    obtain ⟨x, y, numbers, title, xLabel, yLabel, hasks, hy, width, height, rfl⟩ :=
      exists_of_line_eq_ok h
    exact ⟨x, y, numbers, title, xLabel, yLabel, hasks,
      shows_markup hid width height (isDocument_lineConfig x y title xLabel yLabel hasks.isDocument)
        (title?_lineConfig x y title xLabel yLabel) (labels?_lineConfig x y title xLabel yLabel)
        (points?_lineConfig x y title xLabel yLabel) hy hasks.aligned⟩
  bar args f h := by
    obtain ⟨labels, y, numbers, title, vertical, hasks, hy, width, height, rfl⟩ :=
      exists_of_bar_eq_ok h
    have haligned : (labels.map Json.str).length = numbers.length := by
      rw [List.length_map]
      exact hasks.aligned
    exact ⟨labels, y, numbers, title, vertical, hasks,
      shows_markup hid width height (isDocument_barConfig labels y title vertical)
        (title?_barConfig labels y title vertical) (labels?_barConfig labels y title vertical)
        (points?_barConfig labels y title vertical) hy haligned⟩

/-- A title and a mark that would end the script. -/
theorem scripts_unbroken_hostile :
    let args : Arguments := .ofList [("title", .str "</script><b>"),
      ("y", .list [.int 1, .float 0.5]),
      ("x", .tuple [.str "</SCRIPT>", .dict [(.str "<", .str "/script>")]])]
    ∃ f, line (Fresh.ofSeed 7 [0]) args = .ok f ∧
      closings f.markup.toList = ["</script>".toList] := by
  intro args
  have h := scripts_unbroken (isIdentifier_ofSeed 7 [0])
  have hok : ∃ f, line (Fresh.ofSeed 7 [0]) args = .ok f := ⟨_, rfl⟩
  obtain ⟨f, hf⟩ := hok
  obtain ⟨x, y, numbers, title, xLabel, yLabel, -, hshows⟩ := h.line args f hf
  exact ⟨f, hf, hshows.closes⟩

/-- An integer of 54 bits is drawn as the double below it. -/
theorem not_shows_given_integer :
    let args : Arguments := .ofList [("y", .list [.int 9007199254740993])]
    ∃ text config y x,
      line "0" args =
        .ok ⟨opening "0" 600 400 ++ text ++ ");\n" ++ "\x7d);\n" ++ "</script>", [library]⟩ ∧
      readExactly? text = some config ∧ points? config = some [.float y] ∧
      (Decimal.Parts.ofFloat y).finite? = some (false, x) ∧ x.value ≠ 9007199254740993 := by
  intro args
  let y := Float.ofInt 9007199254740993
  let config := lineConfig [.int 0] [y] none none none
  have hconfig : config.IsDocument :=
    isDocument_lineConfig [.int 0] [y] none none none (List.forall_mem_singleton.mpr trivial)
  have hparts : (Decimal.Parts.ofFloat y).finite? = some (false, ⟨2 ^ 52, 1, true⟩) := by
    decide +kernel
  have hpoint : numberJson y = .float y := by
    rw [numberJson, Value.toJson,
      if_pos (Decimal.isSome_finite?_iff.mp (Option.isSome_of_eq_some hparts))]
  have hpoints : points? config = some [.float y] := by
    rw [points?_lineConfig, List.map_singleton, hpoint]
  have hvalue : Decimal.Dyadic.value ⟨2 ^ 52, 1, true⟩ ≠ 9007199254740993 := by
    norm_num [Decimal.Dyadic.value, Decimal.binary]
  exact ⟨embedded config, config, y, _, rfl, readExactly?_slashed hconfig, hpoints, hparts, hvalue⟩

end PageLoom.Chart
