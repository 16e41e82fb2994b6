import PageLoom.Markup.Node
import PageLoom.Proofs.Markup.Reference
import PageLoom.Proofs.Span.Lossless

/-!
# Expanding an article

An article is expanded in two passes: the scalars of the context are put into the processed
text, and then the markup of the calls.  This is the same as expanding it at once, literal
by literal and call by call (`expandsDirectly`).  Whatever stands around a placeholder, it
is recognized in both passes, and what one pass puts in is read by no other.
-/

namespace PageLoom

/-! ## Spans whose calls succeed -/

/-- A span whose call succeeds, and the literal after it. -/
structure Called extends Marked where
  id : String
  fragment : Fragment

namespace Called

variable (m : Markers) (s : Called)

/-- The source of its call. -/
def source : String := String.ofList (trim s.body)

/-- The name that stands for it. -/
def placeholder : String := placeholderName s.id

def handled : Handled := ⟨s.toMarked, s.id, .ok s.fragment⟩

def segment : Segment :=
  ⟨s.fragment, String.ofList (m.start ++ s.body ++ m.stop), s.placeholder⟩

end Called

theorem exists_called {spans : List Handled} (h : spans.filterMap Handled.error? = []) :
    ∃ called : List Called, spans = called.map Called.handled := by
  rw [errors_eq_nil_iff] at h
  induction spans with
  | nil => exact ⟨[], rfl⟩
  | cons s spans ih =>
      obtain ⟨fragment, hs⟩ := h s List.mem_cons_self
      obtain ⟨called, rfl⟩ := ih fun s' hs' => h s' (List.mem_cons_of_mem _ hs')
      obtain ⟨marked, id, result⟩ := s
      cases hs
      exact ⟨⟨marked, id, fragment⟩ :: called, rfl⟩

section Called

variable (m : Markers) (spans : List Called)

theorem segments_called : (spans.map Called.handled).filterMap (Handled.segment? m) =
    spans.map (Called.segment m) := by
  rw [List.filterMap_map, ← List.filterMap_eq_map]
  rfl

theorem shown_called : ((spans.map Called.handled).flatMap fun s => s.shown m ++ s.after) =
    spans.flatMap fun s => (reference s.placeholder).toList ++ s.after := by
  rw [List.flatMap_map]
  rfl

end Called

/-! ## One pass -/

/-- A pass over a text in which names stand for spans. -/
theorem substituted_spans (vars : NameMap String) {spans : List Called}
    (hvar : ∀ s ∈ spans, isVariable s.placeholder = true) (after : Called → List Char)
    (first : List Char) :
    substituted vars (first ++
        spans.flatMap fun s => (reference s.placeholder).toList ++ after s) =
      substituted vars first ++
        spans.flatMap fun s => vars.valueOf s.placeholder ++ substituted vars (after s) := by
  induction spans generalizing first with
  | nil => simp
  | cons s spans ih =>
      have hrest := ih (fun s' hs' => hvar s' (List.mem_cons_of_mem _ hs')) (after s)
      rw [List.flatMap_cons, List.flatMap_cons, List.append_assoc, substituted_append_reference
        (hvar s List.mem_cons_self), hrest, List.append_assoc]

/-! ## Both passes -/

/-- What stands between the spans of a text. -/
def literals (m : Markers) (cs : List Char) : List (List Char) :=
  (splitSpans m cs).filterMap fun
    | .literal text => some text
    | .span _ => none

/-- Placeholders that are taken for nothing else in a text. -/
structure Placed (context : Context) (m : Markers) (text : String) (names : List String) :
    Prop where
  distinct : names.Nodup
  named : ∀ p ∈ names, isVariable p = true
  unknown : ∀ p ∈ names, context.get? p = none
  /-- They do not occur between the spans once the scalars are put there. -/
  absent : ∀ p ∈ names, ∀ literal ∈ literals m text.toList,
    ¬ p.toList <:+: substituted context.scalars literal

section Placeholders

variable {p : Processed} {name : String}

theorem get?_placeholders_of_mem {s : Segment}
    (hdistinct : (p.segments.map Segment.placeholder).Nodup) (hs : s ∈ p.segments) :
    p.placeholders.get? s.placeholder = some s.result.markup := by
  refine NameMap.get?_insertAll_of_mem .empty ?_
    (List.mem_map_of_mem (f := fun s => (s.placeholder, s.result.markup)) hs)
  rw [List.Nodup, List.pairwise_map] at hdistinct
  rwa [List.pairwise_map]

theorem get?_placeholders_of_not_mem (h : name ∉ p.segments.map Segment.placeholder) :
    p.placeholders.get? name = none := by
  refine NameMap.get?_insertAll_of_not_mem .empty fun e he heq => ?_
  obtain ⟨s, hs, rfl⟩ := List.mem_map.mp he
  exact h (List.mem_map.mpr ⟨s, hs, heq⟩)

/-- No literal has a reference to a placeholder, not even through a scalar. -/
theorem Placed.substituted_literal {context : Context} {m : Markers} {text : String}
    (h : Placed context m text (p.segments.map Segment.placeholder)) {literal : List Char}
    (hmem : .literal literal ∈ splitSpans m text.toList) :
    substituted p.placeholders (substituted context.scalars literal) =
      substituted context.scalars literal := by
  refine substituted_eq_self fun name hoccurs => get?_placeholders_of_not_mem fun hp => ?_
  exact h.absent name hp literal (List.mem_filterMap.mpr ⟨_, hmem, rfl⟩) hoccurs

end Placeholders

/-- A text expanded at once: `first`, and then spans with literals after them. -/
def expandedText (context : Context) (first : List Char) (spans : List Called) : String :=
  String.ofList (substituted context.scalars first ++
    spans.flatMap fun s => s.fragment.markup.toList ++ substituted context.scalars s.after)

section Process

variable (functions : FunctionTable) (context : Context) (m : Markers) (fresh : Fresh)

/-- What both passes make of a text whose calls all succeed. -/
structure ExpandsDirectly (text : String) (first : List Char) (spans : List Called) : Prop where
  pieces : splitSpans m text.toList = .literal first :: spans.flatMap fun s => s.pieces
  called : ∀ s ∈ spans, dispatch functions context s.id s.source = .ok s.fragment
  segments : (process functions context m fresh text).segments = spans.map (Called.segment m)
  /-- The first pass changes the literals only, each as if it stood alone. -/
  scalars : substitute context.scalars (process functions context m fresh text).text =
    String.ofList (substituted context.scalars first ++ spans.flatMap fun s =>
      (reference s.placeholder).toList ++ substituted context.scalars s.after)
  /-- The second pass changes the placeholders only, each into the markup of its call. -/
  expanded : substitute (process functions context m fresh text).placeholders
      (substitute context.scalars (process functions context m fresh text).text) =
    expandedText context first spans
  /-- This is the markup of an article whose conversion leaves the text as it is. -/
  article : ∀ (convert : String → String) (resources : List String),
    unwrapPlaceholders
        (convert (substitute context.scalars (process functions context m fresh text).text))
        (process functions context m fresh text).segments =
      substitute context.scalars (process functions context m fresh text).text →
    (Article.mk text context functions m resources).expand convert fresh =
      .ok ⟨expandedText context first spans, spans.flatMap fun s => s.fragment.resources⟩

/-- A text whose calls all succeed is processed into its literals and references. -/
theorem exists_process_called {text : String}
    (hok : (process functions context m fresh text).errors = []) :
    ∃ (first : List Char) (spans : List Called),
      splitSpans m text.toList = .literal first :: spans.flatMap (fun s => s.pieces) ∧
      (∀ s ∈ spans, dispatch functions context s.id s.source = .ok s.fragment) ∧
      (process functions context m fresh text).segments = spans.map (Called.segment m) ∧
      (process functions context m fresh text).text = String.ofList (first ++
        spans.flatMap fun s => (reference s.placeholder).toList ++ s.after) := by
  obtain ⟨first, marked, hmarked, -, -⟩ := exists_marked m text.toList
  have hprocess := process_eq functions context m fresh hmarked
  have hsame : (handleFrom functions context fresh 1 marked).map Handled.toMarked = marked :=
    map_toMarked_handleFrom 1 marked
  have hresult : ∀ s ∈ handleFrom functions context fresh 1 marked,
      s.result = dispatch functions context s.id s.source := fun s => result_of_mem_handleFrom
  obtain ⟨spans, hspans⟩ := exists_called (by rw [hprocess] at hok; exact hok)
  rw [hspans] at hprocess hsame hresult
  rw [segments_called, shown_called] at hprocess
  refine ⟨first, spans, ?_, fun s hs => (hresult s.handled (List.mem_map_of_mem hs)).symm, ?_, ?_⟩
  · rw [hmarked, ← hsame, List.flatMap_map, List.flatMap_map]
    rfl
  · rw [hprocess]
  · rw [hprocess]

theorem expandsDirectly (text : String)
    (hok : (process functions context m fresh text).errors = [])
    (hplaced : Placed context m text
      ((process functions context m fresh text).segments.map Segment.placeholder)) :
    ∃ first spans, ExpandsDirectly functions context m fresh text first spans := by
  obtain ⟨first, spans, hpieces, hcalled, hsegments, htext⟩ :=
    exists_process_called functions context m fresh hok
  have hmem : ∀ s ∈ spans, s.segment m ∈ (process functions context m fresh text).segments := by
    intro s hs
    rw [hsegments]
    exact List.mem_map_of_mem hs
  have hname : ∀ s ∈ spans, s.placeholder ∈
      (process functions context m fresh text).segments.map Segment.placeholder :=
    fun s hs => List.mem_map_of_mem (f := Segment.placeholder) (hmem s hs)
  have hvar : ∀ s ∈ spans, isVariable s.placeholder = true := fun s hs =>
    hplaced.named _ (hname s hs)
  have hscalars : substitute context.scalars (process functions context m fresh text).text =
      String.ofList (substituted context.scalars first ++ spans.flatMap fun s =>
        (reference s.placeholder).toList ++ substituted context.scalars s.after) := by
    rw [htext, substitute_eq, String.toList_ofList,
      substituted_spans context.scalars hvar (fun s => s.after)]
    congr 2
    refine List.flatMap_congr fun s hs => ?_
    have hnone := NameMap.get?_filterMap_of_none Context.scalarText?
      (hplaced.unknown _ (hname s hs))
    rw [NameMap.valueOf, Context.scalars, hnone]
  have hexpanded : substitute (process functions context m fresh text).placeholders
      (substitute context.scalars (process functions context m fresh text).text) =
      expandedText context first spans := by
    rw [hscalars, substitute_eq, String.toList_ofList, expandedText,
      substituted_spans _ hvar fun s => substituted context.scalars s.after,
      hplaced.substituted_literal (hpieces ▸ List.mem_cons_self)]
    congr 2
    refine List.flatMap_congr fun s hs => ?_
    have hafter : .literal s.after ∈ splitSpans m text.toList := by
      rw [hpieces]
      refine List.mem_cons_of_mem _ (List.mem_flatMap.mpr ⟨s, hs, ?_⟩)
      exact List.mem_cons_of_mem _ (List.mem_singleton_self _)
    have hvalue : (process functions context m fresh text).placeholders.get? s.placeholder =
        some s.fragment.markup := get?_placeholders_of_mem hplaced.distinct (hmem s hs)
    rw [hplaced.substituted_literal hafter, NameMap.valueOf, hvalue]
  refine ⟨first, spans, ?_⟩
  constructor
  case pieces => exact hpieces
  case called => exact hcalled
  case segments => exact hsegments
  case scalars => exact hscalars
  case expanded => exact hexpanded
  case article =>
    intro convert resources hconvert
    have hresult : (process functions context m fresh text).result =
        .ok (process functions context m fresh text) := (Processed.result_eq_ok_iff _).mpr hok
    have hresources : (process functions context m fresh text).resources =
        spans.flatMap fun s => s.fragment.resources := by
      rw [Processed.resources, hsegments, List.flatMap_map]
      rfl
    simp only [Article.expand, hresult, hconvert, hexpanded, hresources]

/-- Spans among braces, and a scalar and a markup that look like references. -/
theorem expandsDirectly_braces : ∃ functions context text p first spans,
    p = process functions context .standard (Fresh.ofSeed 7) text ∧ p.errors = [] ∧
    ExpandsDirectly functions context .standard (Fresh.ofSeed 7) text first spans ∧
    text = "\x7b%$f()$%\x7d\x7b\x7bn\x7d\x7d\x7b\x7b%$f()$%\x7d\x7d" ∧
    substitute p.placeholders (substitute context.scalars p.text) =
      "\x7b\x7b\x7bn\x7d\x7d\x7d\x7b\x7bm\x7d\x7d\x7b\x7b\x7b\x7bn\x7d\x7d\x7d\x7d" := by
  obtain ⟨first, spans, h⟩ := expandsDirectly
    (.register .empty "f" fun _ _ => .ok ⟨"\x7b\x7bn\x7d\x7d", []⟩)
    (.ofList [("n", .str "\x7b\x7bm\x7d\x7d")]) .standard (Fresh.ofSeed 7)
    "\x7b%$f()$%\x7d\x7b\x7bn\x7d\x7d\x7b\x7b%$f()$%\x7d\x7d" (by decide +kernel)
    ⟨by decide +kernel, by decide +kernel, by decide +kernel, by decide +kernel⟩
  exact ⟨_, _, _, _, first, spans, rfl, by decide +kernel, h, rfl, by decide +kernel⟩

end Process

end PageLoom
