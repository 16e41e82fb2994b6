import PageLoom.Proofs.Span.Pieces
import PageLoom.Proofs.Span.Restore

/-!
# Processing loses nothing

The processed text is the text with the spans that succeeded replaced, each span is a
segment or an error, and none of them has a part in what becomes of another
(`lossless_process`).
-/

namespace PageLoom

/-! ## Calls -/

/-- What comes of the call in a source: it is read, then its parameters are evaluated, then its
function is looked up, and then the function is called.  The first of these that fails is why the
call fails. -/
inductive Dispatched (functions : FunctionTable) (context : Context) (id source : String) :
    Except CallError Fragment → Prop
  | unread {e : SyntaxError} (h : parseCall source = .error e) :
      Dispatched functions context id source (.error (.syntaxError e))
  | unevaluated {call : CallExpr} {err : CallError} (hread : parseCall source = .ok call)
      (h : call.eval context = .error err) : Dispatched functions context id source (.error err)
  | unknown {call : CallExpr} {made : Call} (hread : parseCall source = .ok call)
      (heval : call.eval context = .ok made) (h : functions.get? made.function = none) :
      Dispatched functions context id source (.error (.functionNotFound made.function))
  | refused {call : CallExpr} {made : Call} {f : Function} {e : FunctionError}
      (hread : parseCall source = .ok call) (heval : call.eval context = .ok made)
      (hfound : functions.get? made.function = some f) (h : f id made.arguments = .error e) :
      Dispatched functions context id source (.error (.failed made.function e))
  | called {call : CallExpr} {made : Call} {f : Function} {fragment : Fragment}
      (hread : parseCall source = .ok call) (heval : call.eval context = .ok made)
      (hfound : functions.get? made.function = some f) (h : f id made.arguments = .ok fragment) :
      Dispatched functions context id source (.ok fragment)

/-- A dispatch ends with a fragment of the function found or with the first thing that went
wrong. -/
theorem dispatched_dispatch (functions : FunctionTable) (context : Context) (id source : String) :
    Dispatched functions context id source (dispatch functions context id source) := by
  rw [dispatch, Call.ofSource]
  cases hread : parseCall source with
  | error e => exact .unread hread
  | ok call =>
      dsimp only
      cases heval : call.eval context with
      | error err => exact .unevaluated hread heval
      | ok made =>
          dsimp only
          cases hfound : functions.get? made.function with
          | none => exact .unknown hread heval hfound
          | some f =>
              dsimp only
              cases h : f id made.arguments with
              | error e => exact .refused hread heval hfound h
              | ok fragment => exact .called hread heval hfound h

/-- The rules tell what comes of a call. -/
theorem dispatched_iff {functions : FunctionTable} {context : Context} {id source : String}
    {r : Except CallError Fragment} : Dispatched functions context id source r ↔
      dispatch functions context id source = r := by
  constructor
  · intro h
    rw [dispatch, Call.ofSource]
    cases h with
    | unread h => rw [h]
    | unevaluated hread h => simp only [hread, h]
    | unknown hread heval h => simp only [hread, heval, h]
    | refused hread heval hfound h => simp only [hread, heval, hfound, h]
    | called hread heval hfound h => simp only [hread, heval, hfound, h]
  · rintro rfl
    exact dispatched_dispatch functions context id source

/-! ## Spans and what becomes of them -/

/-- A span, the literal after it, its identifier, and what its call makes. -/
structure Handled extends Marked where
  id : String
  result : Except CallError Fragment

namespace Handled

/-- The source of its call. -/
def source (s : Handled) : String := String.ofList (trim s.body)

section

variable (m : Markers) (s : Handled)

/-- The span as it is written. -/
def written : List Char := m.start ++ s.body ++ m.stop

/-- What stands in the processed text in place of the span. -/
def shown : List Char :=
  match s.result with
  | .ok _ => (reference (placeholderName s.id)).toList
  | .error _ => s.written m

def segment? : Option Segment :=
  match s.result with
  | .ok result => some ⟨result, String.ofList (s.written m), placeholderName s.id⟩
  | .error _ => none

def error? : Option SpanError :=
  match s.result with
  | .ok _ => none
  | .error e => some ⟨e, s.source⟩

def outcome : Outcome :=
  match s.result with
  | .ok result => .succeeded ⟨result, String.ofList (s.written m), placeholderName s.id⟩
  | .error e => .failed (String.ofList (s.written m)) ⟨e, s.source⟩

end

variable {m : Markers} {s : Handled}

@[simp] theorem text_outcome : (s.outcome m).text.toList = s.shown m := by
  unfold outcome shown
  cases s.result with
  | ok result => rfl
  | error e => exact String.toList_ofList

@[simp] theorem original_outcome : (s.outcome m).original = s.written m := by
  unfold outcome
  cases s.result <;> exact String.toList_ofList

@[simp] theorem segment?_outcome : (s.outcome m).segment? = s.segment? m := by
  unfold outcome segment?
  cases s.result <;> rfl

@[simp] theorem error?_outcome : (s.outcome m).error? = s.error? := by
  unfold outcome error?
  cases s.result <;> rfl

end Handled

namespace Processed

theorem result_eq_ok_iff (p : Processed) : p.result = .ok p ↔ p.errors = [] := by
  rw [result]
  split
  next h => exact ⟨fun _ => List.isEmpty_iff.mp h, fun _ => rfl⟩
  next h => exact ⟨fun hok => (by cases hok), fun hnil => absurd (List.isEmpty_iff.mpr hnil) h⟩

theorem result_eq_error {p : Processed} (h : p.errors ≠ []) : p.result = .error p.errors :=
  if_neg fun hempty => h (List.isEmpty_iff.mp hempty)

end Processed

section Process

variable (functions : FunctionTable) (context : Context) (m : Markers) (fresh : Fresh)

/-- Make the calls of spans.  `place` is the place of the first one. -/
def handleFrom (place : Nat) : List Marked → List Handled
  | [] => []
  | s :: spans =>
      let id := (fresh.below place).here
      ⟨s, id, dispatch functions context id (String.ofList (trim s.body))⟩ ::
        handleFrom (place + 2) spans

theorem outcomesFrom_pieces (place : Nat) (spans : List Marked) :
    outcomesFrom functions context m fresh place (spans.flatMap Marked.pieces) =
      (handleFrom functions context fresh place spans).flatMap fun s =>
        [s.outcome m, .literal (String.ofList s.after)] := by
  induction spans generalizing place with
  | nil => rfl
  | cons s spans ih =>
      have hspan : ∀ id, (Piece.span s.body).outcome functions context m id =
          Handled.outcome m
            ⟨s, id, dispatch functions context id (String.ofList (trim s.body))⟩ := by
        intro id
        simp only [Piece.outcome, Handled.outcome]
        cases dispatch functions context id (String.ofList (trim s.body)) <;> rfl
      simp only [List.flatMap_cons, Marked.pieces, List.cons_append, List.nil_append, outcomesFrom,
        hspan, handleFrom]
      rw [← ih]
      rfl

variable {functions context fresh}

/-- Handling the spans neither drops nor moves any of them. -/
theorem map_toMarked_handleFrom (place : Nat) (spans : List Marked) :
    (handleFrom functions context fresh place spans).map Handled.toMarked = spans := by
  induction spans generalizing place with
  | nil => rfl
  | cons s spans ih => exact congrArg (s :: ·) (ih (place + 2))

/-- The id of a call comes from its place among all pieces, literals included. -/
theorem id_handleFrom {place : Nat} {spans : List Marked} {i : Nat}
    (hi : i < (handleFrom functions context fresh place spans).length) :
    (handleFrom functions context fresh place spans)[i].id =
      (fresh.below (place + 2 * i)).here := by
  induction spans generalizing place i with
  | nil => cases hi
  | cons s spans ih =>
      cases i with
      | zero => rfl
      | succ i =>
          have hplace : place + 2 * (i + 1) = place + 2 + 2 * i := by omega
          rw [hplace]
          exact ih (Nat.lt_of_succ_lt_succ hi)

/-- What becomes of a span depends on its own source and id alone. -/
theorem result_of_mem_handleFrom {place : Nat} {spans : List Marked} {s : Handled}
    (hs : s ∈ handleFrom functions context fresh place spans) :
    s.result = dispatch functions context s.id s.source := by
  induction spans generalizing place with
  | nil => cases hs
  | cons span spans ih =>
      rcases List.mem_cons.mp hs with rfl | hs
      · rfl
      · exact ih hs

/-! ## The processed text -/

/-- What the pieces of a text become: a literal, and spans with a literal after each. -/
def allOutcomes (m : Markers) (first : List Char) (spans : List Handled) : List Outcome :=
  .literal (String.ofList first) ::
    spans.flatMap fun s => [s.outcome m, .literal (String.ofList s.after)]

variable {m} (first : List Char) (spans : List Handled)

/-- The text of the outcomes is the source with each span replaced by what it shows. -/
theorem flatMap_text_allOutcomes :
    ((allOutcomes m first spans).flatMap fun o => o.text.toList) =
      first ++ spans.flatMap fun s => s.shown m ++ s.after := by
  have hliteral : ∀ text : List Char,
      (Outcome.literal (String.ofList text)).text.toList = text := fun _ => String.toList_ofList
  simp only [allOutcomes, List.flatMap_cons, List.flatMap_assoc, List.flatMap_nil, hliteral,
    Handled.text_outcome, List.append_nil]

/-- The originals of the outcomes, put together, are the source. -/
theorem flatMap_original_allOutcomes :
    (allOutcomes m first spans).flatMap Outcome.original =
      first ++ spans.flatMap fun s => s.written m ++ s.after := by
  have hliteral : ∀ text : List Char,
      (Outcome.literal (String.ofList text)).original = text := fun _ => String.toList_ofList
  simp only [allOutcomes, List.flatMap_cons, List.flatMap_assoc, List.flatMap_nil, hliteral,
    Handled.original_outcome, List.append_nil]

theorem segments_allOutcomes :
    (allOutcomes m first spans).filterMap Outcome.segment? =
      spans.filterMap (Handled.segment? m) := by
  show (spans.flatMap _).filterMap Outcome.segment? = _
  induction spans with
  | nil => rfl
  | cons s spans ih =>
      have hliteral : ∀ text, (Outcome.literal text).segment? = none := fun _ => rfl
      simp only [List.flatMap_cons, List.filterMap_append, ih, List.filterMap_cons,
        Handled.segment?_outcome, hliteral, List.filterMap_nil]
      cases s.segment? m <;> rfl

theorem errors_allOutcomes :
    (allOutcomes m first spans).filterMap Outcome.error? = spans.filterMap Handled.error? := by
  show (spans.flatMap _).filterMap Outcome.error? = _
  induction spans with
  | nil => rfl
  | cons s spans ih =>
      have hliteral : ∀ text, (Outcome.literal text).error? = none := fun _ => rfl
      simp only [List.flatMap_cons, List.filterMap_append, ih, List.filterMap_cons,
        Handled.error?_outcome, hliteral, List.filterMap_nil]
      cases s.error? <;> rfl

/-- A span is a segment or an error, and not both. -/
theorem length_segments_add_errors :
    (spans.filterMap (Handled.segment? m)).length + (spans.filterMap Handled.error?).length =
      spans.length := by
  induction spans with
  | nil => rfl
  | cons s spans ih =>
      cases hs : s.result with
      | ok result =>
          have hsegment : (s.segment? m).isSome := by rw [Handled.segment?, hs]; rfl
          have herror : s.error? = none := by rw [Handled.error?, hs]
          obtain ⟨segment, hsegment⟩ := Option.isSome_iff_exists.mp hsegment
          rw [List.filterMap_cons_some hsegment, List.filterMap_cons_none herror,
            List.length_cons, List.length_cons, ← ih]
          omega
      | error e =>
          have hsegment : s.segment? m = none := by rw [Handled.segment?, hs]
          have herror : s.error? = some ⟨e, s.source⟩ := by rw [Handled.error?, hs]
          rw [List.filterMap_cons_none hsegment, List.filterMap_cons_some herror,
            List.length_cons, List.length_cons, ← ih]
          omega

/-- There are no errors exactly when every span has a fragment. -/
theorem errors_eq_nil_iff :
    spans.filterMap Handled.error? = [] ↔ ∀ s ∈ spans, ∃ fragment, s.result = .ok fragment := by
  rw [List.filterMap_eq_nil_iff]
  refine forall_congr' fun s => forall_congr' fun _ => ?_
  cases hs : s.result with
  | ok fragment => simp [Handled.error?, hs]
  | error e => simp [Handled.error?, hs]

theorem apart_allOutcomes (hids : ∀ s ∈ spans, Unbraced s.id)
    (hdistinct : ((spans.filterMap (Handled.segment? m)).map Segment.placeholder).Nodup)
    (habsent : ∀ s ∈ spans.filterMap (Handled.segment? m),
      ¬ s.placeholder.toList <:+: first ++ spans.flatMap fun s => s.written m ++ s.after) :
    Apart (allOutcomes m first spans) := by
  have hmem : ∀ s, .succeeded s ∈ allOutcomes m first spans →
      s ∈ spans.filterMap (Handled.segment? m) := by
    intro s hs
    rwa [← segments_allOutcomes first, mem_filterMap_segment?]
  constructor
  case unbraced =>
    intro s hs
    obtain ⟨span, hspan, hsegment⟩ := List.mem_filterMap.mp (hmem s hs)
    have hplaceholder : s.placeholder = placeholderName span.id := by
      unfold Handled.segment? at hsegment
      split at hsegment
      next => cases hsegment; rfl
      next => cases hsegment
    rw [hplaceholder]
    exact unbraced_placeholderName (hids span hspan)
  case distinct =>
    intro s hs s' hs' heq
    exact List.inj_on_of_nodup_map hdistinct (hmem s' hs') (hmem s hs) heq
  case absent =>
    intro s hs
    rw [flatMap_original_allOutcomes]
    exact habsent s (hmem s hs)

/-- The text comes back when the spans that succeeded are put back. -/
theorem foldl_putBack_spans (hids : ∀ s ∈ spans, Unbraced s.id)
    (hdistinct : ((spans.filterMap (Handled.segment? m)).map Segment.placeholder).Nodup)
    (habsent : ∀ s ∈ spans.filterMap (Handled.segment? m),
      ¬ s.placeholder.toList <:+: first ++ spans.flatMap fun s => s.written m ++ s.after)
    {order : List Segment} (horder : order.Perm (spans.filterMap (Handled.segment? m))) :
    order.foldl Segment.putBack (first ++ spans.flatMap fun s => s.shown m ++ s.after) =
      first ++ spans.flatMap fun s => s.written m ++ s.after := by
  have hapart : Apart (allOutcomes m first spans) :=
    apart_allOutcomes first spans hids hdistinct habsent
  rw [← segments_allOutcomes first] at horder
  rw [← flatMap_text_allOutcomes, ← flatMap_original_allOutcomes]
  exact hapart.restored horder

variable {first} {spans}

theorem eq_of_pieces {cs : List Char}
    (h : splitSpans m cs = .literal first :: spans.flatMap fun s => s.pieces) :
    cs = first ++ spans.flatMap fun s => s.written m ++ s.after := by
  have hall := written_splitSpans m cs
  rw [h, List.flatMap_cons, List.flatMap_assoc] at hall
  rw [← hall]
  simp [Marked.pieces, Piece.written, Handled.written]

variable (functions context m fresh)

/-- A text with its pieces in hand is processed as the spans among them are. -/
theorem process_eq {text : String} {marked : List Marked}
    (h : splitSpans m text.toList = .literal first :: marked.flatMap Marked.pieces) :
    process functions context m fresh text =
      { text := String.ofList (first ++
          (handleFrom functions context fresh 1 marked).flatMap fun s => s.shown m ++ s.after)
        segments := (handleFrom functions context fresh 1 marked).filterMap (Handled.segment? m)
        errors := (handleFrom functions context fresh 1 marked).filterMap Handled.error? } := by
  have houtcomes : outcomesFrom functions context m fresh 0 (splitSpans m text.toList) =
      allOutcomes m first (handleFrom functions context fresh 1 marked) := by
    rw [h, outcomesFrom, outcomesFrom_pieces]
    rfl
  have htext : String.join ((allOutcomes m first
      (handleFrom functions context fresh 1 marked)).map Outcome.text) =
      String.ofList (first ++
        (handleFrom functions context fresh 1 marked).flatMap fun s => s.shown m ++ s.after) := by
    apply String.toList_injective
    rw [String.toList_join, List.flatMap_map, String.toList_ofList]
    exact flatMap_text_allOutcomes first _
  simp only [process, houtcomes, htext, segments_allOutcomes, errors_allOutcomes]

theorem filterMap_singleton {α β : Type} (f : α → Option β) (a : α) :
    [a].filterMap f = (f a).toList := by
  rw [List.filterMap_cons]
  cases f a <;> rfl

/-- A span that is alone in its text. -/
theorem process_alone {s : Handled}
    (hsplit : splitSpans m (s.written m) = [.literal [], .span s.body, .literal []])
    (hid : (fresh.below 1).here = s.id)
    (hresult : s.result = dispatch functions context s.id s.source) :
    process functions context m fresh (String.ofList (s.written m)) =
      ⟨String.ofList (s.shown m), (s.segment? m).toList, s.error?.toList⟩ := by
  have hpieces : splitSpans m (String.ofList (s.written m)).toList =
      .literal [] :: [Marked.mk s.body []].flatMap Marked.pieces := by
    rw [String.toList_ofList, hsplit]
    rfl
  have hspans : handleFrom functions context fresh 1 [⟨s.body, []⟩] =
      [⟨⟨s.body, []⟩, s.id, s.result⟩] := by
    rw [handleFrom, handleFrom, hid, hresult]
    rfl
  have hshown : s.shown m = Handled.shown m ⟨⟨s.body, []⟩, s.id, s.result⟩ := rfl
  rw [process_eq functions context m fresh hpieces, hspans]
  simp only [List.flatMap_cons, List.flatMap_nil, List.append_nil, List.nil_append, hshown,
    filterMap_singleton]
  rfl

/-! ## The account of all spans -/

/-- What processing makes of a text that is `first` and then `spans`. -/
structure Lossless (text : String) (first : List Char) (spans : List Handled) : Prop where
  /-- The spans are those that their markers tell. -/
  pieces : splitSpans m text.toList = .literal first :: spans.flatMap fun s => s.pieces
  leftmost : Leftmost m first (spans.map Handled.toMarked)
  written : text.toList = first ++ spans.flatMap fun s => s.written m ++ s.after
  /-- Every span has an identifier of its own place. -/
  ids : ∀ i (h : i < spans.length), spans[i].id = (fresh.below (1 + 2 * i)).here
  result : ∀ s ∈ spans, s.result = dispatch functions context s.id s.source
  /-- What comes of a span is what comes of the call in its source. -/
  called : ∀ s ∈ spans, Dispatched functions context s.id s.source s.result
  /-- The spans that succeeded are replaced, and nothing else is. -/
  shown : (process functions context m fresh text).text.toList =
    first ++ spans.flatMap fun s => s.shown m ++ s.after
  segments : (process functions context m fresh text).segments =
    spans.filterMap (Handled.segment? m)
  errors : (process functions context m fresh text).errors = spans.filterMap Handled.error?
  count : (process functions context m fresh text).segments.length +
    (process functions context m fresh text).errors.length = spans.length
  /-- A span becomes what it becomes in a text of its own. -/
  alone : ∀ s ∈ spans, ∀ fresh' : Fresh, (fresh'.below 1).here = s.id →
    process functions context m fresh' (String.ofList (s.written m)) =
      ⟨String.ofList (s.shown m), (s.segment? m).toList, s.error?.toList⟩
  /-- The text comes back when each span is put back for its placeholder. -/
  restored : (∀ place, Unbraced (fresh place)) →
    ((process functions context m fresh text).segments.map Segment.placeholder).Nodup →
    (∀ s ∈ (process functions context m fresh text).segments,
      ¬ s.placeholder.toList <:+: text.toList) →
    ∀ order : List Segment, order.Perm (process functions context m fresh text).segments →
      order.foldl Segment.putBack (process functions context m fresh text).text.toList =
        text.toList
  /-- The whole succeeds exactly if no span failed. -/
  result_ok_iff : (process functions context m fresh text).result =
      .ok (process functions context m fresh text) ↔
    ∀ s ∈ spans, ∃ fragment, s.result = .ok fragment
  result_error : (∃ s ∈ spans, ∃ e, s.result = .error e) →
    (process functions context m fresh text).result =
      .error (process functions context m fresh text).errors

/-- Nothing of the text is lost in processing: every span has its outcome, and all else is kept. -/
theorem lossless_process (text : String) :
    ∃ first spans, Lossless functions context m fresh text first spans := by
  obtain ⟨first, marked, hmarked, hleft, halone⟩ := exists_marked m text.toList
  have hprocess := process_eq functions context m fresh hmarked
  have hsame : (handleFrom functions context fresh 1 marked).map Handled.toMarked = marked :=
    map_toMarked_handleFrom 1 marked
  have hid : ∀ i (h : i < (handleFrom functions context fresh 1 marked).length),
      (handleFrom functions context fresh 1 marked)[i].id = (fresh.below (1 + 2 * i)).here :=
    fun i h => id_handleFrom h
  have hresult : ∀ s ∈ handleFrom functions context fresh 1 marked,
      s.result = dispatch functions context s.id s.source := fun s => result_of_mem_handleFrom
  generalize handleFrom functions context fresh 1 marked = spans at hprocess hsame hid hresult
  subst hsame
  rw [List.flatMap_map] at hmarked
  have hwritten : text.toList = first ++ spans.flatMap fun s => s.written m ++ s.after :=
    eq_of_pieces hmarked
  refine ⟨first, spans, ?_⟩
  constructor
  case pieces => exact hmarked
  case leftmost => exact hleft
  case written => exact hwritten
  case ids => exact hid
  case result => exact hresult
  case called => exact fun s hs => dispatched_iff.mpr (hresult s hs).symm
  case shown => rw [hprocess, String.toList_ofList]
  case segments => rw [hprocess]
  case errors => rw [hprocess]
  case count =>
    rw [hprocess]
    exact length_segments_add_errors spans
  case alone =>
    intro s hs fresh' hfresh
    exact process_alone functions context m fresh'
      (halone s.toMarked (List.mem_map_of_mem hs)) hfresh (hresult s hs)
  case restored =>
    intro hfresh hdistinct habsent order horder
    have hids : ∀ s ∈ spans, Unbraced s.id := by
      intro s hs
      obtain ⟨i, hi, rfl⟩ := List.getElem_of_mem hs
      rw [hid i hi]
      exact hfresh _
    rw [hprocess] at hdistinct habsent horder ⊢
    rw [hwritten] at habsent ⊢
    rw [String.toList_ofList]
    exact foldl_putBack_spans first spans hids hdistinct habsent horder
  case result_ok_iff =>
    rw [Processed.result_eq_ok_iff, ← errors_eq_nil_iff, hprocess]
  case result_error =>
    rintro ⟨s, hs, e, he⟩
    apply Processed.result_eq_error
    rw [hprocess]
    intro hnil
    obtain ⟨fragment, hok⟩ := (errors_eq_nil_iff spans).mp hnil s hs
    rw [hok] at he
    cases he

/-- A span that fails, between two that succeed. -/
theorem lossless_process_three_spans : ∃ functions first spans p,
    Lossless functions .empty .standard (Fresh.ofSeed 7) "%$f()$%-%$ g() $%%$f()$%" first spans ∧
    p = process functions .empty .standard (Fresh.ofSeed 7) "%$f()$%-%$ g() $%%$f()$%" ∧
    p.segments.map Segment.result =
      [⟨((Fresh.ofSeed 7).below 1).here, []⟩, ⟨((Fresh.ofSeed 7).below 5).here, []⟩] ∧
    p.errors = [⟨.functionNotFound "g", "g()"⟩] ∧
    p.segments.length = 2 ∧ spans.length = 3 ∧
    p.segments.foldl Segment.putBack p.text.toList = "%$f()$%-%$ g() $%%$f()$%".toList := by
  obtain ⟨first, spans, h⟩ := lossless_process (.register .empty "f" fun id _ => .ok ⟨id, []⟩)
    .empty .standard (Fresh.ofSeed 7) "%$f()$%-%$ g() $%%$f()$%"
  refine ⟨_, first, spans, _, h, rfl, by decide +kernel, by decide +kernel, by decide +kernel,
    ?_, ?_⟩
  · rw [← h.count]
    decide +kernel
  · exact h.restored (unbraced_ofSeed 7) (by decide +kernel) (by decide +kernel) _ (.refl _)

end Process

end PageLoom
