import PageLoom.Markup.Node

/-!
# The functions that a text calls

What becomes of the spans of a text depends on the functions that they call and on no others
(`process_congr`).  So an article stays the same if other functions are registered above those that
it can call (`Article.render_register`).
-/

namespace PageLoom

/-! ## Callees -/

/-- The function that a piece of a text calls, if the piece is a call. -/
def Piece.callee? : Piece → Option String
  | .literal _ => none
  | .span body => (parseCall (String.ofList (trim body))).toOption.map CallExpr.function

/-- Some span of a text calls a function. -/
def Calls (m : Markers) (text name : String) : Prop :=
  ∃ piece ∈ splitSpans m text.toList, piece.callee? = some name

instance (m : Markers) (text name : String) : Decidable (Calls m text name) :=
  inferInstanceAs (Decidable (∃ piece ∈ splitSpans m text.toList, piece.callee? = some name))

/-! ## Tables -/

namespace FunctionTable

theorem get?_layered (t : FunctionTable) (name : String) : t.layered.get? name = t.get? name := by
  rw [get?, get?, layers, layered, List.findSome?_cons, NameMap.get?_empty]

theorem get?_register (t : FunctionTable) (name other : String) (f : Function) :
    (t.register name f).get? other = if name = other then some f else t.get? other := by
  rw [get?, get?, layers, layers, register, List.findSome?_cons, List.findSome?_cons,
    NameMap.get?_insert]
  by_cases h : name = other
  · rw [if_pos h, if_pos h]
  · rw [if_neg h, if_neg h]

end FunctionTable

/-! ## Processing -/

/-- Evaluating a call keeps its function. -/
theorem exists_of_ofSource_eq_ok {context : Context} {source : String} {call : Call}
    (h : Call.ofSource context source = .ok call) :
    ∃ written, parseCall source = .ok written ∧ written.function = call.function := by
  rw [Call.ofSource] at h
  split at h
  next => cases h
  next written hparse =>
    rw [CallExpr.eval] at h
    split at h
    next => cases h
    next =>
      cases h
      exact ⟨written, hparse, rfl⟩

variable {F G : FunctionTable}

/-- A dispatch looks up no function but the one that its call names. -/
theorem dispatch_congr {source : String}
    (h : ∀ call, parseCall source = .ok call → F.get? call.function = G.get? call.function)
    (context : Context) (id : String) :
    dispatch F context id source = dispatch G context id source := by
  rw [dispatch, dispatch]
  cases hcall : Call.ofSource context source with
  | error e => rfl
  | ok call =>
      obtain ⟨written, hparse, hfunction⟩ := exists_of_ofSource_eq_ok hcall
      have hget := h written hparse
      rw [hfunction] at hget
      dsimp only
      rw [hget]

theorem Piece.outcome_congr {p : Piece}
    (h : ∀ name, p.callee? = some name → F.get? name = G.get? name) (context : Context)
    (m : Markers) (id : String) : p.outcome F context m id = p.outcome G context m id := by
  cases p with
  | literal text => rfl
  | span body =>
      have hdispatch := dispatch_congr (F := F) (G := G) (fun call hcall => h call.function <| by
        rw [callee?, hcall]
        rfl) context id
      rw [outcome, outcome, hdispatch]

/-- Processing looks up no functions but those that the spans call. -/
theorem outcomesFrom_congr {ps : List Piece}
    (h : ∀ p ∈ ps, ∀ name, p.callee? = some name → F.get? name = G.get? name) (context : Context)
    (m : Markers) (fresh : Fresh) (place : Nat) :
    outcomesFrom F context m fresh place ps = outcomesFrom G context m fresh place ps := by
  induction ps generalizing place with
  | nil => rfl
  | cons p ps ih =>
      rw [outcomesFrom, outcomesFrom, p.outcome_congr (h p (.head _)),
        ih fun q hq => h q (.tail _ hq)]

/-- Tables that have the same functions where a text calls any process it alike. -/
theorem process_congr {m : Markers} {text : String}
    (h : ∀ name, Calls m text name → F.get? name = G.get? name) (context : Context)
    (fresh : Fresh) : process F context m fresh text = process G context m fresh text := by
  rw [process, process, outcomesFrom_congr fun p hp name hname => h name ⟨p, hp, hname⟩]

/-! ## Articles -/

namespace Article

/-- Rendering looks up no functions but those that the template calls. -/
theorem render_congr {a : Article}
    (h : ∀ name, Calls a.markers a.template name → a.functions.get? name = G.get? name)
    (fresh : Fresh) : a.render fresh = { a with functions := G }.render fresh := by
  rw [render, render, expand, expand, process_congr h]

/-- A function that an article does not call can be registered above the others. -/
theorem render_register {a : Article} {name : String} (h : ¬ Calls a.markers a.template name)
    (f : Function) (fresh : Fresh) :
    { a with functions := a.functions.layered.register name f }.render fresh = a.render fresh := by
  refine (render_congr (fun other hother => ?_) fresh).symm
  rw [FunctionTable.get?_register, FunctionTable.get?_layered, if_neg]
  rintro rfl
  exact h hother

end Article

end PageLoom
