import PageLoom.Proofs.Json.Document
import PageLoom.Proofs.Value.Dictionary

/-!
# Values and documents

A value that JSON has words for is made of null, booleans, integers, finite doubles, strings,
lists, and dictionaries whose keys are strings in order, no key twice (`Value.IsPlain`).  Documents
and such values convert into each other without loss (`Value.converts_losslessly`).

The induction goes down the document or the value.  At an object the fields are inserted one after
another into an empty dictionary, and back into an empty object.  Since no two keys are equal each
of them comes last (`Dict.ofList_of_distinct`), and since they are in order it stays there
(`Json.object_of_sorted`).
-/

namespace PageLoom

/-! ## Dictionaries of different keys -/

namespace Dict

/-- A new key comes last. -/
theorem insert_of_new {key value : Value} {d : Dict} (h : ∀ k ∈ keys d, k.same key = false) :
    insert key value d = d ++ [(key, value)] := by
  induction d with
  | nil => rfl
  | cons e d ih =>
      obtain ⟨k, v⟩ := e
      obtain ⟨hk, hd⟩ := List.forall_mem_cons.mp h
      rw [insert, if_neg (by rw [hk]; exact Bool.false_ne_true), ih hd, List.cons_append]

/-- Entries whose keys differ stay as they are. -/
theorem ofList_of_distinct {entries : List (Value × Value)}
    (h : (keys entries).Pairwise fun k l => k.same l = false) : ofList entries = entries := by
  induction entries using List.reverseRecOn with
  | nil => rfl
  | append_singleton entries e ih =>
      rw [keys, List.map_append] at h
      obtain ⟨hentries, -, hlast⟩ := List.pairwise_append.mp h
      rw [ofList_append, ih hentries]
      exact insert_of_new fun k hk => hlast k hk e.1 (List.mem_singleton_self e.1)

end Dict

namespace Value

/-! ## Plain values -/

/-- Whether both keys are strings, in this order. -/
def KeyBefore (a b : Value × Value) : Prop :=
  ∃ s t, a.1 = .str s ∧ b.1 = .str t ∧ s < t

mutual
/-- Whether JSON has words for a value. -/
def IsPlain : Value → Prop
  | .null => True
  | .bool _ => True
  | .int _ => True
  | .float x => x.isFinite = true
  | .str _ => True
  | .list items => ArePlain items
  | .tuple _ => False
  | .dict entries => entries.Pairwise KeyBefore ∧ ArePlainEntries entries
  | .host .. => False

/-- Whether JSON has words for all items. -/
def ArePlain : List Value → Prop
  | [] => True
  | v :: vs => v.IsPlain ∧ ArePlain vs

/-- Whether all keys are strings and JSON has words for all values. -/
def ArePlainEntries : List (Value × Value) → Prop
  | [] => True
  | (k, v) :: es => (∃ s, k = .str s) ∧ v.IsPlain ∧ ArePlainEntries es
end

/-- Keys in strict order are pairwise different, so a dictionary built from them keeps every
entry. -/
theorem distinct_of_keyBefore {entries : List (Value × Value)} (h : entries.Pairwise KeyBefore) :
    (Dict.keys entries).Pairwise fun k l => k.same l = false := by
  rw [Dict.keys, List.pairwise_map]
  refine h.imp ?_
  rintro ⟨_, _⟩ ⟨_, _⟩ ⟨s, t, rfl, rfl, hlt⟩
  rw [same, beq_eq_false_iff_ne]
  rintro rfl
  exact String.lt_irrefl s hlt

/-! ## From documents to values and back -/

theorem pairwise_ofJsonFields {fields : List (String × Json)} (h : fields.Pairwise NameBefore) :
    (ofJsonFields fields).Pairwise KeyBefore := by
  have hmap : ofJsonFields fields = fields.map fun f => (.str f.1, ofJson f.2) := by
    clear h
    induction fields with
    | nil => rfl
    | cons f fields ih => rw [ofJsonFields, ih, List.map_cons]
  rw [hmap, List.pairwise_map]
  exact h.imp fun hlt => ⟨_, _, rfl, rfl, hlt⟩

/-- An object whose names are in order turns into a dictionary without any entry being
overwritten. -/
theorem ofJson_obj {fields : List (String × Json)} (h : fields.Pairwise NameBefore) :
    ofJson (.obj fields) = .dict (ofJsonFields fields) := by
  rw [ofJson, Dict.ofList_of_distinct (distinct_of_keyBefore (pairwise_ofJsonFields h))]

mutual

/-- Nothing is lost on the way from a document to a value and back. -/
theorem toJson_ofJson : {j : Json} → j.IsDocument → (ofJson j).toJson = j
  | .null, _ => rfl
  | .bool _, _ => rfl
  | .int _, _ => rfl
  | .float _, h => if_pos h
  | .str _, _ => rfl
  | .arr items, h =>
      congrArg Json.arr (toJsonItems_ofJsonItems (show Json.AreDocuments items from h))
  | .obj fields, h => by
      rw [ofJson_obj h.1, toJson, toJsonEntries_ofJsonFields h.2, Json.object_of_sorted h.1]

theorem toJsonItems_ofJsonItems : {js : List Json} → Json.AreDocuments js →
    toJsonItems (ofJsonItems js) = js
  | [], _ => rfl
  | _ :: _, h => congrArg₂ List.cons (toJson_ofJson h.1) (toJsonItems_ofJsonItems h.2)

theorem toJsonEntries_ofJsonFields : {fs : List (String × Json)} → Json.AreFields fs →
    toJsonEntries (ofJsonFields fs) = fs
  | [], _ => rfl
  | (k, _) :: _, h =>
      congrArg₂ List.cons (congrArg (Prod.mk k) (toJson_ofJson h.1))
        (toJsonEntries_ofJsonFields h.2)

end

mutual

/-- What comes from a document is a plain value. -/
theorem isPlain_ofJson : {j : Json} → j.IsDocument → (ofJson j).IsPlain
  | .null, _ => trivial
  | .bool _, _ => trivial
  | .int _, _ => trivial
  | .float _, h => h
  | .str _, _ => trivial
  | .arr items, h => arePlain_ofJsonItems (show Json.AreDocuments items from h)
  | .obj _, h => by
      rw [ofJson_obj h.1]
      exact ⟨pairwise_ofJsonFields h.1, arePlainEntries_ofJsonFields h.2⟩

theorem arePlain_ofJsonItems : {js : List Json} → Json.AreDocuments js → ArePlain (ofJsonItems js)
  | [], _ => trivial
  | _ :: _, h => ⟨isPlain_ofJson h.1, arePlain_ofJsonItems h.2⟩

theorem arePlainEntries_ofJsonFields : {fs : List (String × Json)} → Json.AreFields fs →
    ArePlainEntries (ofJsonFields fs)
  | [], _ => trivial
  | (k, _) :: _, h => ⟨⟨k, rfl⟩, isPlain_ofJson h.1, arePlainEntries_ofJsonFields h.2⟩

end

/-! ## From values to documents and back -/

/-- The order of the keys becomes the order of the names. -/
theorem pairwise_toJsonEntries {entries : List (Value × Value)} (h : entries.Pairwise KeyBefore) :
    (toJsonEntries entries).Pairwise NameBefore := by
  have hmap : toJsonEntries entries = entries.map fun e => (e.1.text, e.2.toJson) := by
    clear h
    induction entries with
    | nil => rfl
    | cons e entries ih => rw [toJsonEntries, ih, List.map_cons]
  rw [hmap, List.pairwise_map]
  refine h.imp ?_
  rintro ⟨_, _⟩ ⟨_, _⟩ ⟨s, t, rfl, rfl, hlt⟩
  exact hlt

mutual

/-- Nothing is lost on the way from a plain value to a document and back. -/
theorem ofJson_toJson : {v : Value} → v.IsPlain → ofJson v.toJson = v
  | .null, _ => rfl
  | .bool _, _ => rfl
  | .int _, _ => rfl
  | .float x, h => by
      have hfinite : x.isFinite = true := h
      rw [toJson, if_pos hfinite, ofJson]
  | .str _, _ => rfl
  | .list items, h => congrArg Value.list (ofJsonItems_toJsonItems (show ArePlain items from h))
  | .dict entries, h => by
      have hsorted := pairwise_toJsonEntries h.1
      rw [toJson, Json.object_of_sorted hsorted, ofJson_obj hsorted,
        ofJsonFields_toJsonEntries h.2]

theorem ofJsonItems_toJsonItems : {vs : List Value} → ArePlain vs →
    ofJsonItems (toJsonItems vs) = vs
  | [], _ => rfl
  | _ :: _, h => congrArg₂ List.cons (ofJson_toJson h.1) (ofJsonItems_toJsonItems h.2)

theorem ofJsonFields_toJsonEntries : {es : List (Value × Value)} → ArePlainEntries es →
    ofJsonFields (toJsonEntries es) = es
  | [], _ => rfl
  | (_, _) :: _, ⟨⟨s, rfl⟩, hv, hes⟩ =>
      congrArg₂ List.cons (congrArg (Prod.mk (Value.str s)) (ofJson_toJson hv))
        (ofJsonFields_toJsonEntries hes)

end

/-! ## Plain values equal themselves -/

/-- A finite float equals itself; the one kind that does not is no part of a document. -/
theorem float_beq_self {x : Float} (h : x.isFinite = true) : (x == x) = true := by
  have hfinite : x.toModel.unpack.isFinite = true := h
  rw [float_beq_iff]
  cases hx : x.toModel.unpack with
  | finite s m e _ => exact ⟨.finite s m e, rfl, rfl⟩
  | zero s => exact ⟨.zero, rfl, rfl⟩
  | infinity s => rw [hx] at hfinite; cases hfinite
  | notANumber => rw [hx] at hfinite; cases hfinite

mutual

/-- A plain value equals itself, since it holds no float that does not. -/
theorem same_self : {v : Value} → v.IsPlain → v.same v = true
  | .null, _ => rfl
  | .bool _, _ => BEq.rfl
  | .int _, _ => BEq.rfl
  | .float _, h => float_beq_self h
  | .str _, _ => BEq.rfl
  | .list items, h => sameItems_self (show ArePlain items from h)
  | .dict entries, h => sameEntries_self (show ArePlainEntries entries from h.2)

theorem sameItems_self : {vs : List Value} → ArePlain vs → sameItems vs vs = true
  | [], _ => rfl
  | _ :: _, h => by rw [sameItems, same_self h.1, sameItems_self h.2, Bool.true_and]

theorem sameEntries_self : {es : List (Value × Value)} → ArePlainEntries es →
    sameEntries es es = true
  | [], _ => rfl
  | (_, _) :: _, ⟨⟨s, rfl⟩, hv, hes⟩ => by
      rw [sameEntries, same_self hv, sameEntries_self hes, same, beq_self_eq_true, Bool.true_and,
        Bool.true_and]

end

/-! ## Both ways -/

/-- Documents and plain values convert into each other without loss. -/
theorem converts_losslessly :
    (∀ j : Json, j.IsDocument → (ofJson j).IsPlain ∧ (ofJson j).toJson = j) ∧
    (∀ v : Value, v.IsPlain →
      v.toJson.IsDocument ∧ ofJson v.toJson = v ∧ (ofJson v.toJson).same v = true) := by
  constructor
  · intro j h
    exact ⟨isPlain_ofJson h, toJson_ofJson h⟩
  · intro v h
    have hback := ofJson_toJson h
    refine ⟨isDocument_toJson v, hback, ?_⟩
    rw [hback]
    exact same_self h

/-- Least integer, negative zero, and an integer beside the double of the same quantity. -/
theorem converts_losslessly_limits :
    let j : Json := .obj [("a", .arr [.int Int64.minValue, .float (-0), .float 1, .int 1]),
      ("b", .obj [("", .null)])]
    let v : Value := .dict [(.str "a", .list [.int Int64.minValue, .float (-0), .float 1, .int 1]),
      (.str "b", .dict [(.str "", .null)])]
    (j.IsDocument ∧ (ofJson j).toJson = j) ∧ v.IsPlain ∧ ofJson v.toJson = v := by
  intro j v
  have hzero : (-0 : Float).isFinite = true := by decide +kernel
  have hone : (1 : Float).isFinite = true := by decide +kernel
  have hlt : "a" < "b" := by decide +kernel
  have hj : j.IsDocument := by
    refine ⟨.cons ?_ (List.pairwise_singleton _ _), ⟨trivial, hzero, hone, trivial, trivial⟩,
      ⟨List.pairwise_singleton _ _, trivial, trivial⟩, trivial⟩
    exact List.forall_mem_singleton.mpr hlt
  have hv : v.IsPlain := by
    refine ⟨.cons ?_ (List.pairwise_singleton _ _), ⟨_, rfl⟩,
      ⟨trivial, hzero, hone, trivial, trivial⟩, ⟨_, rfl⟩,
      ⟨List.pairwise_singleton _ _, ⟨_, rfl⟩, trivial, trivial⟩, trivial⟩
    exact List.forall_mem_singleton.mpr ⟨_, _, rfl, rfl, hlt⟩
  exact ⟨⟨hj, (converts_losslessly.1 j hj).2⟩, hv, (converts_losslessly.2 v hv).2.1⟩

end Value

end PageLoom
