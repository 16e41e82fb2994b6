import PageLoom.Value.Json
import Mathlib.Data.List.Induction
import Mathlib.Tactic.Common

/-!
# Documents

Not every term of type `Json` is a document.  JSON has no text for NaN and the infinities, and an
object lists its fields by key, no key twice (`Json.IsDocument`).  `Json.object` makes documents of
documents (`Json.isDocument_object`), and leaves fields that are in order already as they are
(`Json.object_of_sorted`).  So a value always converts to a document (`Value.isDocument_toJson`).
-/

namespace PageLoom

/-! ## Sorted entries -/

/-- An entry after all others is put last. -/
theorem insertName_of_last {α : Type} {name : String} {x : α} {entries : List (String × α)}
    (h : ∀ e ∈ entries, e.1 < name) : insertName name x entries = entries ++ [(name, x)] := by
  induction entries with
  | nil => rfl
  | cons f entries ih =>
      obtain ⟨n, y⟩ := f
      obtain ⟨hn, hentries⟩ := List.forall_mem_cons.mp h
      have hne : name ≠ n := fun heq => String.lt_irrefl n (heq ▸ hn)
      rw [insertName, if_neg hne, if_neg (String.lt_asymm hn), ih hentries, List.cons_append]

/-- Entries that are in order stay as they are. -/
theorem foldl_insertName_of_sorted {α : Type} {entries : List (String × α)}
    (h : entries.Pairwise NameBefore) :
    entries.foldl (fun sorted e => insertName e.1 e.2 sorted) [] = entries := by
  induction entries using List.reverseRecOn with
  | nil => rfl
  | append_singleton entries e ih =>
      obtain ⟨hentries, -, hlast⟩ := List.pairwise_append.mp h
      rw [List.foldl_append, ih hentries, List.foldl_cons, List.foldl_nil]
      exact insertName_of_last fun f hf => hlast f hf e (List.mem_singleton_self e)

/-- Inserting entry by entry keeps the names in strict order. -/
theorem foldl_insertName_sorted {α : Type} (entries : List (String × α)) :
    (entries.foldl (fun sorted e => insertName e.1 e.2 sorted) []).Pairwise NameBefore := by
  induction entries using List.reverseRecOn with
  | nil => exact .nil
  | append_singleton entries e ih =>
      rw [List.foldl_append]
      exact insertName_sorted e.1 e.2 ih

theorem mem_of_mem_foldl_insertName {α : Type} {entries : List (String × α)} {e : String × α}
    (h : e ∈ entries.foldl (fun sorted e => insertName e.1 e.2 sorted) []) : e ∈ entries := by
  induction entries using List.reverseRecOn with
  | nil => exact h
  | append_singleton entries f ih =>
      rw [List.foldl_append] at h
      rcases mem_insertName h with heq | hmem
      · exact List.mem_append_right entries (heq ▸ List.mem_singleton_self f)
      · exact List.mem_append_left [f] (ih hmem)

namespace Json

mutual
/-- Whether a term is a document: doubles are finite, and objects list their fields by key. -/
def IsDocument : Json → Prop
  | .null => True
  | .bool _ => True
  | .int _ => True
  | .float x => x.isFinite = true
  | .str _ => True
  | .arr items => AreDocuments items
  | .obj fields => fields.Pairwise NameBefore ∧ AreFields fields

/-- Whether all items of an array are documents. -/
def AreDocuments : List Json → Prop
  | [] => True
  | j :: js => j.IsDocument ∧ AreDocuments js

/-- Whether all fields of an object hold documents. -/
def AreFields : List (String × Json) → Prop
  | [] => True
  | (_, j) :: fs => j.IsDocument ∧ AreFields fs
end

theorem areDocuments_iff {js : List Json} : AreDocuments js ↔ ∀ j ∈ js, j.IsDocument := by
  induction js with
  | nil => simp [AreDocuments]
  | cons j js ih => rw [AreDocuments, ih, List.forall_mem_cons]

theorem areFields_iff {fs : List (String × Json)} : AreFields fs ↔ ∀ f ∈ fs, f.2.IsDocument := by
  induction fs with
  | nil => simp [AreFields]
  | cons f fs ih => rw [AreFields, ih, List.forall_mem_cons]

/-- Fields that are in order stay as they are. -/
theorem object_of_sorted {fields : List (String × Json)} (h : fields.Pairwise NameBefore) :
    object fields = .obj fields := by
  rw [object, foldl_insertName_of_sorted h]

/-- An object made of documents is a document, whatever the order of its fields. -/
theorem isDocument_object {fields : List (String × Json)} (h : ∀ f ∈ fields, f.2.IsDocument) :
    (object fields).IsDocument := by
  refine ⟨foldl_insertName_sorted fields, areFields_iff.mpr fun f hf => ?_⟩
  exact h f (mem_of_mem_foldl_insertName hf)

end Json

namespace Value

mutual

/-- A value converts to a document. -/
theorem isDocument_toJson : (v : Value) → v.toJson.IsDocument
  | .null => trivial
  | .bool _ => trivial
  | .int _ => trivial
  | .float x => by
      rw [toJson]
      split
      next hx => exact hx
      next => trivial
  | .str _ => trivial
  | .list items => Json.areDocuments_iff.mpr (isDocument_toJsonItems items)
  | .tuple items => Json.areDocuments_iff.mpr (isDocument_toJsonItems items)
  | .dict entries => Json.isDocument_object (isDocument_toJsonEntries entries)
  | .host .. => trivial

theorem isDocument_toJsonItems : (vs : List Value) → ∀ j ∈ toJsonItems vs, j.IsDocument
  | [] => by simp [toJsonItems]
  | v :: vs => List.forall_mem_cons.mpr ⟨isDocument_toJson v, isDocument_toJsonItems vs⟩

theorem isDocument_toJsonEntries :
    (es : List (Value × Value)) → ∀ f ∈ toJsonEntries es, f.2.IsDocument
  | [] => by simp [toJsonEntries]
  | (_, v) :: es => List.forall_mem_cons.mpr ⟨isDocument_toJson v, isDocument_toJsonEntries es⟩

end

end Value

end PageLoom
