import PageLoom.Proofs.NameMap
import PageLoom.Proofs.Span.Callees
import PageLoom.Proofs.Text.Utf8
import Mathlib.Data.List.Dedup
import Mathlib.Data.List.Induction
import Mathlib.Data.List.Sort
import Mathlib.Data.String.Basic

/-!
# Layers of functions

A table is made by registering functions in a layer, then in a layer on top of it, and so on.  One
registration changes what one name has, and a new layer changes nothing.  So by induction on the
layers, and in each of them on the registrations, a name has the function that is registered last in
the topmost layer with that name (`FunctionTable.get?_stack`), as if all of them had been registered
in one layer, from below (`FunctionTable.get?_merged`).

The names are those that are found (`FunctionTable.mem_names`).  A table without its topmost layer
is the table that the layer was put on (`FunctionTable.under?_layered_registerAll`).
-/

namespace PageLoom

/-- What is registered in a layer, in order. -/
abbrev Registrations := List (String × Function)

/-- The last function of a name in the topmost layer that registers the name.  The lowest layer is
the first one. -/
def IsTopmost (name : String) (f : Function) (layers : List Registrations) : Prop :=
  ∃ lower layer upper, layers = lower ++ layer :: upper ∧ IsLastOf name f layer ∧
    ∀ other ∈ upper, ∀ r ∈ other, r.1 ≠ name

theorem isTopmost_singleton {name : String} {f : Function} {layer : Registrations} :
    IsTopmost name f [layer] ↔ IsLastOf name f layer := by
  constructor
  · rintro ⟨lower, other, upper, h, hlast, -⟩
    rcases List.append_eq_singleton_iff.mp h.symm with ⟨-, hother⟩ | ⟨-, hnil⟩
    · cases hother
      exact hlast
    · cases hnil
  · intro hlast
    exact ⟨[], layer, [], rfl, hlast, by simp⟩

/-- A further layer on top wins where it has the name, and lets the layers below show through
elsewhere. -/
theorem isTopmost_concat {name : String} {f : Function} {layers : List Registrations}
    {layer : Registrations} : IsTopmost name f (layers ++ [layer]) ↔
      IsLastOf name f layer ∨ (∀ r ∈ layer, r.1 ≠ name) ∧ IsTopmost name f layers := by
  constructor
  · rintro ⟨lower, other, upper, h, hlast, hupper⟩
    rcases List.eq_nil_or_concat' upper with rfl | ⟨upper, top, rfl⟩
    · obtain ⟨-, h⟩ := List.append_inj' h rfl
      cases h
      exact .inl hlast
    · rw [← List.cons_append, ← List.append_assoc] at h
      obtain ⟨hlayers, htop⟩ := List.append_inj' h rfl
      cases htop
      exact .inr ⟨hupper layer (by simp), lower, other, upper, hlayers, hlast, fun o ho =>
        hupper o (List.mem_append_left _ ho)⟩
  · rintro (hlast | ⟨hnone, lower, other, upper, rfl, hlast, hupper⟩)
    · exact ⟨layers, layer, [], rfl, hlast, by simp⟩
    · refine ⟨lower, other, upper ++ [layer], by simp, hlast, ?_⟩
      intro o ho
      rcases List.mem_append.mp ho with ho | ho
      · exact hupper o ho
      · rw [List.mem_singleton.mp ho]
        exact hnone

namespace FunctionTable

/-! ## Stacks -/

/-- Register functions in the topmost layer, one after another. -/
def registerAll (t : FunctionTable) (rs : Registrations) : FunctionTable :=
  rs.foldl (fun t r => t.register r.1 r.2) t

/-- A table of layers: the lowest one, and those that are put on it one after another. -/
def stack (lowest : Registrations) (upper : List Registrations) : FunctionTable :=
  upper.foldl (fun t layer => t.layered.registerAll layer) (empty.registerAll lowest)

/-- The table that the topmost layer was put on. -/
def under? : FunctionTable → Option FunctionTable
  | ⟨_, []⟩ => none
  | ⟨_, layer :: below⟩ => some ⟨layer, below⟩

/-- The table that the topmost `n` layers were put on. -/
def lower? : Nat → FunctionTable → Option FunctionTable
  | 0, t => some t
  | n + 1, t => t.under?.bind (lower? n)

theorem registerAll_append (t : FunctionTable) (rs later : Registrations) :
    t.registerAll (rs ++ later) = (t.registerAll rs).registerAll later := List.foldl_append

theorem stack_concat (lowest : Registrations) (upper : List Registrations)
    (layer : Registrations) :
    stack lowest (upper ++ [layer]) = (stack lowest upper).layered.registerAll layer :=
  List.foldl_concat ..

/-! ## Looking up -/

/-- Registrations go to the topmost layer, and the last one of a name wins. -/
theorem get?_registerAll (t : FunctionTable) {name : String} {f : Function} {rs : Registrations} :
    (t.registerAll rs).get? name = some f ↔
      IsLastOf name f rs ∨ (∀ r ∈ rs, r.1 ≠ name) ∧ t.get? name = some f :=
  find_foldl_eq_some_iff (get? · name) (fun t r => t.get?_register r.1 name r.2) t

theorem get?_registerAll_empty {name : String} {f : Function} {rs : Registrations} :
    (empty.registerAll rs).get? name = some f ↔ IsLastOf name f rs := by
  have hempty : empty.get? name = none := rfl
  simp [get?_registerAll, hempty]

/-- Tables that find the same functions still do so after the same registrations. -/
theorem get?_registerAll_congr {t u : FunctionTable} (h : ∀ name, t.get? name = u.get? name)
    (rs : Registrations) (name : String) :
    (t.registerAll rs).get? name = (u.registerAll rs).get? name := by
  ext f
  rw [get?_registerAll, get?_registerAll, h]

theorem get?_stack {lowest : Registrations} {upper : List Registrations} {name : String}
    {f : Function} :
    (stack lowest upper).get? name = some f ↔ IsTopmost name f (lowest :: upper) := by
  induction upper using List.reverseRecOn with
  | nil => rw [stack, List.foldl_nil, get?_registerAll_empty, isTopmost_singleton]
  | append_singleton upper layer ih =>
      rw [stack_concat, get?_registerAll, get?_layered, ih, ← List.cons_append, isTopmost_concat]

/-- A stack finds what one layer does in which all functions are registered, from below. -/
theorem get?_merged (lowest : Registrations) (upper : List Registrations) (name : String) :
    (stack lowest upper).get? name = (empty.registerAll (lowest :: upper).flatten).get? name := by
  induction upper using List.reverseRecOn generalizing name with
  | nil => rw [List.flatten_singleton, stack, List.foldl_nil]
  | append_singleton upper layer ih =>
      have hbelow : ∀ other, (stack lowest upper).layered.get? other =
          (empty.registerAll (lowest :: upper).flatten).get? other := fun other =>
        (get?_layered _ other).trans (ih other)
      rw [stack_concat, get?_registerAll_congr hbelow, ← registerAll_append, ← List.cons_append,
        List.flatten_concat]

/-- A name that the topmost layer does not have is looked up in the table under it. -/
theorem get?_eq_or (t : FunctionTable) (name : String) :
    t.get? name = (t.top.get? name).or (t.under?.bind (·.get? name)) := by
  obtain ⟨top, _ | ⟨layer, below⟩⟩ := t
  · rw [get?, layers, List.findSome?_cons, List.findSome?_nil]
    cases top.get? name <;> rfl
  · rw [get?, layers, List.findSome?_cons]
    cases top.get? name <;> rfl

/-! ## Names -/

/-- The names of a table are those of its layers together. -/
theorem mem_names_iff_layers {t : FunctionTable} {name : String} :
    name ∈ t.names ↔ ∃ layer ∈ t.layers, name ∈ layer.names := by
  rw [names, nameSet, NameMap.mem_names_ofList]
  constructor
  · rintro ⟨e, he, rfl⟩
    obtain ⟨layer, hlayer, he⟩ := List.mem_flatMap.mp he
    obtain ⟨n, hn, rfl⟩ := List.mem_map.mp he
    exact ⟨layer, hlayer, hn⟩
  · rintro ⟨layer, hlayer, hn⟩
    exact ⟨(name, ()), List.mem_flatMap.mpr ⟨layer, hlayer, List.mem_map_of_mem hn⟩, rfl⟩

theorem mem_names {t : FunctionTable} {name : String} :
    name ∈ t.names ↔ ∃ f, t.get? name = some f := by
  rw [mem_names_iff_layers, ← Option.isSome_iff_exists, get?, List.findSome?_isSome_iff]
  simp only [NameMap.mem_names, Option.isSome_iff_exists]

theorem contains_iff {t : FunctionTable} {name : String} :
    t.contains name = true ↔ name ∈ t.names := by
  rw [mem_names, contains, Option.isSome_iff_exists]

theorem pairwise_names (t : FunctionTable) : t.names.Pairwise (· < ·) := t.nameSet.pairwise_names

/-- Tables that find the same have the same names. -/
theorem names_congr {t u : FunctionTable} (h : ∀ name, t.get? name = u.get? name) :
    t.names = u.names :=
  t.pairwise_names.eq_of_mem_iff u.pairwise_names fun name => by rw [mem_names, mem_names, h]

/-- The names of a stack are those of all layers. -/
theorem mem_names_stack {lowest : Registrations} {upper : List Registrations} {name : String} :
    name ∈ (stack lowest upper).names ↔ ∃ layer ∈ lowest :: upper, ∃ r ∈ layer, r.1 = name := by
  simp only [mem_names, get?_merged, get?_registerAll_empty, exists_isLastOf_iff, List.mem_flatten]
  constructor
  · rintro ⟨r, ⟨layer, hlayer, hr⟩, hname⟩
    exact ⟨layer, hlayer, r, hr, hname⟩
  · rintro ⟨layer, hlayer, r, hr, hname⟩
    exact ⟨r, ⟨layer, hlayer, hr⟩, hname⟩

/-- The names of the topmost layer and of the table under it are put in order, each once. -/
theorem names_eq_dedup (t : FunctionTable) : t.names =
    ((t.top.names ++ (t.under?.map names).getD []).mergeSort (· ≤ ·)).dedup := by
  have hsorted := List.pairwise_mergeSort' (· ≤ ·) (t.top.names ++ (t.under?.map names).getD [])
  have hmerged : (((t.top.names ++ (t.under?.map names).getD []).mergeSort (· ≤ ·)).dedup).Pairwise
      (· < ·) :=
    ((hsorted.sublist (List.dedup_sublist _)).and (List.nodup_dedup _)).imp fun h =>
      lt_of_le_of_ne h.1 h.2
  refine t.pairwise_names.eq_of_mem_iff hmerged fun name => ?_
  rw [List.mem_dedup, List.mem_mergeSort, List.mem_append]
  obtain ⟨top, _ | ⟨layer, below⟩⟩ := t
  · simp [mem_names_iff_layers, under?, layers]
  · simp [mem_names_iff_layers, under?, layers]

/-! ## Stacks under stacks -/

/-- Registering never reaches a layer further down. -/
theorem below_registerAll (t : FunctionTable) (rs : Registrations) :
    (t.registerAll rs).below = t.below := by
  induction rs generalizing t with
  | nil => rfl
  | cons r rs ih => exact ih (t.register r.1 r.2)

theorem under?_eq_some_of_below {t u : FunctionTable} (h : t.below = u.layers) :
    t.under? = some u := by
  obtain ⟨top, below⟩ := t
  cases h
  rfl

/-- A layer leaves the table that it is put on as it is, whatever is registered in it. -/
theorem under?_layered_registerAll (t : FunctionTable) (rs : Registrations) :
    (t.layered.registerAll rs).under? = some t :=
  under?_eq_some_of_below (below_registerAll t.layered rs)

theorem lower?_register (t : FunctionTable) (name : String) (f : Function) (n : Nat) :
    lower? (n + 1) (t.register name f) = lower? (n + 1) t := by
  obtain ⟨top, _ | ⟨layer, below⟩⟩ := t
  · rfl
  · rfl

/-- Under the layers put on top, the stack is still there as it was. -/
theorem lower?_stack (lowest : Registrations) (upper above : List Registrations) :
    lower? above.length (stack lowest (upper ++ above)) = some (stack lowest upper) := by
  induction above using List.reverseRecOn with
  | nil => rw [List.append_nil, List.length_nil, lower?]
  | append_singleton above layer ih =>
      rw [List.length_append, List.length_singleton, lower?, ← List.append_assoc, stack_concat,
        under?_layered_registerAll, Option.bind_some, ih]

/-! ## Stacks as single tables -/

/-- How the names of a stack are looked up. -/
structure ResolvesAsOne (lowest : Registrations) (upper : List Registrations) : Prop where
  /-- The names that are found are those that are listed. -/
  contains : ∀ name, (stack lowest upper).contains name = true ↔ name ∈ (stack lowest upper).names
  /-- They are listed once and in order. -/
  ordered : (stack lowest upper).names.Pairwise (· < ·)
  /-- That is the order of their bytes. -/
  bytes : (stack lowest upper).names.Pairwise fun name other =>
    utf8 name.toList < utf8 other.toList
  /-- They are the names of all layers. -/
  union : ∀ name, name ∈ (stack lowest upper).names ↔ ∃ layer ∈ lowest :: upper, ∃ r ∈ layer,
    r.1 = name
  /-- A name has what is registered last in the topmost layer that registers it. -/
  topmost : ∀ name f, (stack lowest upper).get? name = some f ↔ IsTopmost name f (lowest :: upper)
  /-- The same is found if all is registered in one layer, from below. -/
  merged : (∀ name, (stack lowest upper).get? name =
    (empty.registerAll (lowest :: upper).flatten).get? name) ∧
    (stack lowest upper).names = (empty.registerAll (lowest :: upper).flatten).names
  /-- What the topmost layer does not have is looked up in the table under it. -/
  inherits : ∀ name, (stack lowest upper).get? name =
    ((stack lowest upper).top.get? name).or ((stack lowest upper).under?.bind (·.get? name))
  /-- The names of both are put in order, each once. -/
  lists : (stack lowest upper).names = (((stack lowest upper).top.names ++
    ((stack lowest upper).under?.map names).getD []).mergeSort (· ≤ ·)).dedup
  /-- Layers that are put on the stack leave the stack as it is. -/
  unchanged : ∀ above,
    lower? above.length (stack lowest (upper ++ above)) = some (stack lowest upper)
  /-- A registration leaves the tables under the topmost layer as they are. -/
  register : ∀ name f n, lower? (n + 1) ((stack lowest upper).register name f) =
    lower? (n + 1) (stack lowest upper)

/-- A stack of layers finds functions like one table in which the topmost registration of each name
stands. -/
theorem resolvesAsOne_stack (lowest : Registrations) (upper : List Registrations) :
    ResolvesAsOne lowest upper := by
  constructor
  case contains => exact fun name => contains_iff
  case ordered => exact pairwise_names _
  case bytes => exact (pairwise_names _).imp fun h => utf8_lt_utf8 (String.lt_iff.mp h)
  case union => exact fun name => mem_names_stack
  case topmost => exact fun name f => get?_stack
  case merged => exact ⟨get?_merged lowest upper, names_congr (get?_merged lowest upper)⟩
  case inherits => exact get?_eq_or _
  case lists => exact names_eq_dedup _
  case unchanged => exact lower?_stack lowest upper
  case register => exact lower?_register _

/-- An upper layer hides a function, and the names of both layers are put in order. -/
example : let f : Function := fun _ _ => .ok ⟨"", []⟩
    let t := ((empty.register "echo" f).register "asset" f).layered
    ((t.register "local" f).register "echo" f).names = ["asset", "echo", "local"] := by
  decide +kernel

end FunctionTable

end PageLoom
