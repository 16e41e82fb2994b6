import PageLoom.Proofs.Value.Equality
import Mathlib.Data.List.Induction
import Mathlib.Data.Set.Card

/-!
# Dictionaries made by insertions

A dictionary is made by inserting entries one after another.  An insertion changes what is found at
the keys equal to its own, and nothing else (`Dict.get?_insert`).  It leaves the keys as they are if
an equal one is there, and else puts its own after them (`Dict.keys_insert`).

By induction on the insertions, a dictionary has the keys that no equal one was inserted before,
each in its place, with the values that were inserted last (`Dict.lastWriteWins_ofList`).  Since
equality is symmetric and transitive, there is one entry for every class of equal keys.  Keys that
differ from themselves are in no class, not even their own, so they are left out.
-/

namespace PageLoom

namespace Dict

/-! ## One insertion -/

variable (key other value : Value) (d : Dict)

/-- The keys of a dictionary, in order. -/
def keys : List Value := d.map Prod.fst

theorem get?_insert :
    get? other (insert key value d) = if key.same other then some value else get? other d := by
  induction d with
  | nil => rfl
  | cons e d ih =>
      obtain ⟨k, v⟩ := e
      rw [insert]
      split
      next hk =>
        -- The two keys are equal to the same keys.
        rw [get?, get?, Value.same_congr hk other]
        split <;> rfl
      next hk =>
        rw [get?, get?, ih]
        split
        next hko =>
          have hkey : ¬ key.same other = true := by
            intro h
            rw [Value.same_comm] at h
            exact hk (Value.same_trans k hko h)
          rw [if_neg hkey]
        next => rfl

/-- A key that is new comes last, and one that is not keeps its place. -/
theorem keys_insert : keys (insert key value d) =
    if (keys d).any (·.same key) then keys d else keys d ++ [key] := by
  induction d with
  | nil => rfl
  | cons e d ih =>
      obtain ⟨k, v⟩ := e
      by_cases hk : k.same key = true
      · simp [insert, keys, hk]
      · have hany : (keys ((k, v) :: d)).any (·.same key) = (keys d).any (·.same key) := by
          simp [keys, hk]
        rw [insert, if_neg hk, hany]
        show k :: keys (insert key value d) = _
        rw [ih]
        split <;> rfl

theorem ofList_append (inserts : List (Value × Value)) :
    ofList (inserts ++ [(key, value)]) = insert key value (ofList inserts) := by
  rw [ofList, List.foldl_append]
  rfl

end Dict

/-! ## What a list of insertions says -/

/-- The value of the last insertion of a key. -/
def lastValue? (key : Value) (inserts : List (Value × Value)) : Option Value :=
  (inserts.filter fun e => e.1.same key).getLast?.map Prod.snd

/-- The keys of a list without those that an equal one comes before. -/
def firstKeys : List Value → List Value
  | [] => []
  | k :: ks => k :: (firstKeys ks).filter fun l => !k.same l

/-- The values that are equal to a key. -/
def classOf (key : Value) : Set Value := {k | key.same k = true}

theorem lastValue?_append (key other value : Value) (inserts : List (Value × Value)) :
    lastValue? other (inserts ++ [(key, value)]) =
      if key.same other then some value else lastValue? other inserts := by
  rw [lastValue?, lastValue?, List.filter_append]
  by_cases h : key.same other = true
  · simp [h]
  · simp [h]

theorem firstKeys_append (ks : List Value) (key : Value) : firstKeys (ks ++ [key]) =
    if (firstKeys ks).any (·.same key) then firstKeys ks else firstKeys ks ++ [key] := by
  induction ks with
  | nil => rfl
  | cons k ks ih =>
      rw [List.cons_append, firstKeys, firstKeys, ih, List.any_cons]
      by_cases hk : k.same key = true
      · -- The new key is left out for the first one, whatever comes between.
        rw [hk, Bool.true_or, if_pos rfl]
        split <;> simp [hk]
      · have hany : ((firstKeys ks).filter fun l => !k.same l).any (·.same key) =
            (firstKeys ks).any (·.same key) := by
          rw [Bool.eq_iff_iff, List.any_eq_true, List.any_eq_true]
          constructor
          · rintro ⟨l, hl, hlkey⟩
            exact ⟨l, List.mem_of_mem_filter hl, hlkey⟩
          · rintro ⟨l, hl, hlkey⟩
            refine ⟨l, List.mem_filter.mpr ⟨hl, ?_⟩, hlkey⟩
            rw [Bool.not_eq_true', Bool.eq_false_iff]
            intro hkl
            exact hk (Value.same_trans k hkl hlkey)
        rw [hany, Bool.eq_false_iff.mpr hk, Bool.false_or]
        split
        next => rfl
        next => simp [hk]

/-- The first keys are among the keys. -/
theorem mem_of_mem_firstKeys {ks : List Value} {k : Value} (h : k ∈ firstKeys ks) : k ∈ ks := by
  induction ks with
  | nil => exact h
  | cons l ks ih =>
      rcases List.mem_cons.mp h with rfl | h
      · exact List.mem_cons_self
      · exact List.mem_cons_of_mem l (ih (List.mem_of_mem_filter h))

/-- No two of the first keys are equal. -/
theorem pairwise_firstKeys (ks : List Value) :
    (firstKeys ks).Pairwise fun k l => k.same l = false := by
  induction ks with
  | nil => exact .nil
  | cons k ks ih =>
      refine .cons ?_ (ih.filter _)
      intro l hl
      have hkl := (List.mem_filter.mp hl).2
      simpa using hkl

/-- Every key that equals itself is equal to a first one. -/
theorem exists_mem_firstKeys {ks : List Value} {key : Value} (h : key ∈ ks)
    (hself : key.same key = true) : ∃ k ∈ firstKeys ks, k.same key = true := by
  induction ks with
  | nil => cases h
  | cons k ks ih =>
      by_cases hk : k.same key = true
      · exact ⟨k, List.mem_cons_self, hk⟩
      · rcases List.mem_cons.mp h with rfl | h
        · exact absurd hself hk
        · obtain ⟨l, hl, hlkey⟩ := ih h
          refine ⟨l, List.mem_cons_of_mem k (List.mem_filter.mpr ⟨hl, ?_⟩), hlkey⟩
          rw [Bool.not_eq_true', Bool.eq_false_iff]
          intro hkl
          exact hk (Value.same_trans k hkl hlkey)

/-- Further keys come behind those that are there, so the order never changes. -/
theorem firstKeys_prefix (ks ls : List Value) : firstKeys ks <+: firstKeys (ks ++ ls) := by
  induction ls using List.reverseRecOn with
  | nil => rw [List.append_nil]
  | append_singleton ls l ih =>
      rw [← List.append_assoc, firstKeys_append]
      split
      · exact ih
      · exact ih.trans (List.prefix_append _ _)

/-- Keys fall into the classes of those they equal, which is where symmetry and transitivity are
needed. -/
theorem classOf_eq_iff {a b : Value} (hb : b.same b = true) :
    classOf a = classOf b ↔ a.same b = true := by
  constructor
  · intro h
    have hmem : b ∈ classOf b := hb
    rw [← h] at hmem
    exact hmem
  · intro h
    ext c
    simp only [classOf, Set.mem_ofPred_eq, Value.same_congr h]

/-- There are as many first keys as classes. -/
theorem ncard_classes {ks : List Value} (h : ∀ k ∈ ks, k.same k = true) :
    (classOf '' {k | k ∈ ks}).ncard = (firstKeys ks).length := by
  classical
  have himage : classOf '' {k | k ∈ ks} = {c | c ∈ (firstKeys ks).map classOf} := by
    ext c
    simp only [Set.mem_image, Set.mem_ofPred_eq, List.mem_map]
    constructor
    · rintro ⟨k, hk, rfl⟩
      obtain ⟨l, hl, hlk⟩ := exists_mem_firstKeys hk (h k hk)
      exact ⟨l, hl, (classOf_eq_iff (h k hk)).mpr hlk⟩
    · rintro ⟨k, hk, rfl⟩
      exact ⟨k, mem_of_mem_firstKeys hk, rfl⟩
  have hnodup : ((firstKeys ks).map classOf).Nodup := by
    rw [List.Nodup, List.pairwise_map]
    refine (pairwise_firstKeys ks).imp_of_mem ?_
    intro k l _ hl hkl heq
    rw [classOf_eq_iff (h l (mem_of_mem_firstKeys hl)), hkl] at heq
    cases heq
  rw [himage, ← List.coe_toFinset, Set.ncard_coe_finset, List.toFinset_card_of_nodup hnodup,
    List.length_map]

/-! ## All insertions -/

namespace Dict

theorem keys_ofList (inserts : List (Value × Value)) :
    keys (ofList inserts) = firstKeys (inserts.map Prod.fst) := by
  induction inserts using List.reverseRecOn with
  | nil => rfl
  | append_singleton inserts e ih =>
      rw [ofList_append, keys_insert, List.map_append, List.map_singleton, firstKeys_append, ih]

theorem get?_ofList (key : Value) (inserts : List (Value × Value)) :
    get? key (ofList inserts) = lastValue? key inserts := by
  induction inserts using List.reverseRecOn with
  | nil => rfl
  | append_singleton inserts e ih =>
      rw [ofList_append, get?_insert, lastValue?_append, ih]

/-- Every entry is found by its key. -/
theorem get?_of_mem {d : Dict} (hd : (keys d).Pairwise fun k l => k.same l = false)
    {key value : Value} (h : (key, value) ∈ d) (hself : key.same key = true) :
    get? key d = some value := by
  induction d with
  | nil => cases h
  | cons e d ih =>
      obtain ⟨k, v⟩ := e
      rw [keys, List.map_cons, List.pairwise_cons] at hd
      obtain ⟨hk, hd⟩ := hd
      rw [get?]
      rcases List.mem_cons.mp h with h | h
      · cases h
        rw [if_pos hself]
      · have hkey : k.same key = false := hk key (List.mem_map_of_mem h)
        rw [if_neg (by rw [hkey]; exact Bool.false_ne_true), ih hd h]

/-- What a dictionary made by insertions holds. -/
structure LastWriteWins (inserts : List (Value × Value)) : Prop where
  /-- No two keys are equal. -/
  distinct : (keys (ofList inserts)).Pairwise fun k l => k.same l = false
  /-- A key has the value that was inserted last. -/
  get? : ∀ key, get? key (ofList inserts) = lastValue? key inserts
  /-- The keys are those that no equal one was inserted before, in their order. -/
  keys : keys (ofList inserts) = firstKeys (inserts.map Prod.fst)
  /-- Each of them has the value that was inserted last. -/
  entries : ∀ e ∈ ofList inserts, lastValue? e.1 inserts = some e.2
  /-- Later insertions leave the keys in their places. -/
  places : ∀ later, Dict.keys (ofList inserts) <+: Dict.keys (ofList (inserts ++ later))
  /-- A further insertion says which value was inserted last. -/
  exchange : ∀ key value, exchange key value (ofList inserts) =
    (lastValue? key inserts, ofList (inserts ++ [(key, value)]))
  /-- There is one entry for every class of equal keys. -/
  length : (ofList inserts).length = (classOf '' {k | k ∈ inserts.map Prod.fst}).ncard
  /-- A string key is found as a name, as an attribute and as a field. -/
  names : ∀ name, getName? name (ofList inserts) = Dict.get? (.str name) (ofList inserts) ∧
    (Value.dict (ofList inserts)).attr? name = Dict.get? (.str name) (ofList inserts) ∧
    (Value.dict (ofList inserts)).field? (.str name) = Dict.get? (.str name) (ofList inserts)

/-- A dictionary made of entries has the last value of each key, in the place of the first. -/
theorem lastWriteWins_ofList {inserts : List (Value × Value)}
    (h : ∀ e ∈ inserts, e.1.same e.1 = true) : LastWriteWins inserts := by
  have hself : ∀ k ∈ inserts.map Prod.fst, k.same k = true := by
    intro k hk
    obtain ⟨e, he, rfl⟩ := List.mem_map.mp hk
    exact h e he
  have hdistinct : (Dict.keys (ofList inserts)).Pairwise fun k l => k.same l = false := by
    rw [keys_ofList]
    exact pairwise_firstKeys _
  constructor
  case distinct => exact hdistinct
  case get? =>
    intro key
    exact get?_ofList key inserts
  case keys => exact keys_ofList inserts
  case entries =>
    rintro ⟨key, value⟩ he
    have hkey : key ∈ firstKeys (inserts.map Prod.fst) := by
      rw [← keys_ofList]
      exact List.mem_map_of_mem he
    rw [← get?_ofList]
    exact get?_of_mem hdistinct he (hself key (mem_of_mem_firstKeys hkey))
  case places =>
    intro later
    rw [keys_ofList, keys_ofList, List.map_append]
    exact firstKeys_prefix _ _
  case exchange =>
    intro key value
    rw [exchange_eq, get?_ofList, ofList_append]
  case length =>
    rw [ncard_classes hself, ← keys_ofList, Dict.keys, List.length_map]
  case names =>
    intro name
    exact ⟨getName?_eq_get? name _, getName?_eq_get? name _, rfl⟩

/-- A tuple differs from a list, an integer from a double, and a zero equals the other one. -/
theorem lastWriteWins_ofList_nested :
    let inserts : List (Value × Value) := [(.tuple [.int 1], .str "a"), (.list [.int 1], .str "b"),
      (.float 0, .str "c"), (.tuple [.int 1], .str "d"), (.float (-0), .str "e"),
      (.int 0, .str "f")]
    (∀ e ∈ inserts, e.1.same e.1 = true) ∧ LastWriteWins inserts ∧
      (ofList inserts).length = 4 := by
  have hself : ∀ e ∈ [(Value.tuple [.int 1], Value.str "a"), (.list [.int 1], .str "b"),
      (.float 0, .str "c"), (.tuple [.int 1], .str "d"), (.float (-0), .str "e"),
      (.int 0, .str "f")], e.1.same e.1 = true := by decide +kernel
  exact ⟨hself, lastWriteWins_ofList hself, by decide +kernel⟩

end Dict

end PageLoom
