import PageLoom.Proofs.Markup.Substitution

/-!
# Passes of substitution

A text can be substituted in several passes, each with the variables that are known by then.  What a
pass leaves for the next one is again literal texts without braces and references, if the values
that it puts in have no braces: the first pass and the second one see the same references
(`Referred.substituted_shown`).

So two passes do what one does with the variables of both, of which the earlier ones win
(`substitute_substitute`).
-/

namespace PageLoom

/-- Whether a text consists of references and of literal texts without braces. -/
def BracesInReferences (cs : List Char) : Prop :=
  ∃ (first : List Char) (refs : List Referred),
    cs = first ++ refs.flatMap (fun r => r.written ++ r.after) ∧ ('{' ∉ first ∧ '}' ∉ first) ∧
    ∀ r ∈ refs, IsReference r.name r.written ∧ '{' ∉ r.after ∧ '}' ∉ r.after

/-- Whether no value of a map has braces. -/
def UnbracedValues (vars : NameMap String) : Prop :=
  ∀ name value, vars.get? name = some value → Unbraced value

/-! ## One pass, piece by piece -/

theorem references_append_of_not_mem {cs : List Char} (h : '{' ∉ cs) (rest : List Char) :
    references (cs ++ rest) = cs.map TextPart.char ++ references rest := by
  induction cs with
  | nil => rfl
  | cons c cs ih =>
      have hnone : scanReference? (c :: (cs ++ rest)) = none := by
        by_contra hsome
        obtain ⟨⟨name, rest'⟩, hscan⟩ := Option.ne_none_iff_exists'.mp hsome
        obtain ⟨inside, -, hcs, -, -⟩ := scanReference?_eq_some_iff.mp hscan
        have hc : c = '{' := (List.cons.inj hcs).1
        exact h (hc ▸ List.mem_cons_self)
      rw [List.cons_append, references_cons_of_none hnone,
        ih fun hmem => h (List.mem_cons_of_mem c hmem), List.map_cons, List.cons_append]

/-- A pass goes over a text without braces. -/
theorem substituted_append_of_not_mem {cs : List Char} (h : '{' ∉ cs) (vars : NameMap String)
    (rest : List Char) : substituted vars (cs ++ rest) = cs ++ substituted vars rest := by
  rw [substituted, references_append_of_not_mem h, List.flatMap_append, flatMap_fill_chars]
  rfl

/-- A pass shows a reference. -/
theorem Referred.substituted_written {r : Referred} (h : IsReference r.name r.written)
    (vars : NameMap String) (rest : List Char) :
    substituted vars (r.written ++ rest) = r.shown vars ++ substituted vars rest := by
  rw [substituted, h.references_append, List.flatMap_cons, TextPart.fill, String.ofList_toList]
  rfl

/-- A pass shows what an earlier pass has shown of a reference as one pass would. -/
theorem Referred.substituted_shown {r : Referred} (h : IsReference r.name r.written)
    {earlier : NameMap String} (hvalues : UnbracedValues earlier) (later : NameMap String)
    (rest : List Char) : substituted later (r.shown earlier ++ rest) =
      r.shown (later.union earlier) ++ substituted later rest := by
  rw [shown, shown, NameMap.get?_union]
  cases hget : earlier.get? r.name with
  | some value => exact substituted_append_of_not_mem (hvalues r.name value hget).1 later rest
  | none => exact substituted_written h later rest

/-! ## Two passes -/

section Pieces

variable {first : List Char} {refs : List Referred} (hfirst : '{' ∉ first)
  (hrefs : ∀ r ∈ refs, IsReference r.name r.written ∧ '{' ∉ r.after ∧ '}' ∉ r.after)

include hfirst hrefs

/-- A pass over what an earlier pass has left of a text whose braces stand in references. -/
theorem substituted_shown {earlier : NameMap String} (hvalues : UnbracedValues earlier)
    (later : NameMap String) :
    substituted later (first ++ refs.flatMap fun r => r.shown earlier ++ r.after) =
      first ++ refs.flatMap fun r => r.shown (later.union earlier) ++ r.after := by
  rw [substituted_append_of_not_mem hfirst]
  congr 1
  induction refs with
  | nil => rfl
  | cons r refs ih =>
      rw [List.forall_mem_cons] at hrefs
      obtain ⟨⟨hr, hafter⟩, hrefs⟩ := hrefs
      rw [List.flatMap_cons, List.append_assoc, Referred.substituted_shown hr hvalues,
        substituted_append_of_not_mem hafter.1, ih hrefs, List.flatMap_cons, List.append_assoc]

/-- The first pass comes after one without variables. -/
theorem substituted_written (vars : NameMap String) :
    substituted vars (first ++ refs.flatMap fun r => r.written ++ r.after) =
      first ++ refs.flatMap fun r => r.shown vars ++ r.after := by
  have hvalues : UnbracedValues .empty := by
    intro name value hget
    cases hget
  exact substituted_shown hfirst hrefs hvalues vars

end Pieces

theorem substitute_substitute {text : String} {earlier : NameMap String}
    (htext : BracesInReferences text.toList) (hvalues : UnbracedValues earlier)
    (later : NameMap String) :
    substitute later (substitute earlier text) = substitute (later.union earlier) text := by
  obtain ⟨first, refs, htext, ⟨hfirst, -⟩, hrefs⟩ := htext
  rw [substitute_eq, substitute_eq, substitute_eq, String.toList_ofList, htext,
    substituted_written hfirst hrefs, substituted_written hfirst hrefs,
    substituted_shown hfirst hrefs hvalues]

/-- The order of the maps of a union does not matter if no name is in both. -/
theorem NameMap.union_comm {α : Type} {m k : NameMap α}
    (h : ∀ name, m.get? name = none ∨ k.get? name = none) : m.union k = k.union m := by
  apply NameMap.ext_get?
  intro name
  rw [NameMap.get?_union, NameMap.get?_union]
  rcases h name with hnone | hnone
  · simp [hnone]
  · simp [hnone]

/-- What a second pass does to a text. -/
structure PassesChain (text : String) (earlier : NameMap String) : Prop where
  /-- Two passes are one with the variables of both, of which the earlier ones win. -/
  chain : ∀ later, substitute later (substitute earlier text) =
    substitute (later.union earlier) text
  /-- Passes with different names and values without braces can be exchanged. -/
  exchange : ∀ later, UnbracedValues later →
    (∀ name, earlier.get? name = none ∨ later.get? name = none) →
    substitute later (substitute earlier text) = substitute earlier (substitute later text)

theorem passes_chain {text : String} {earlier : NameMap String}
    (htext : BracesInReferences text.toList) (hvalues : UnbracedValues earlier) :
    PassesChain text earlier := by
  constructor
  case chain =>
    intro later
    exact substitute_substitute htext hvalues later
  case exchange =>
    intro later hlater hnames
    calc substitute later (substitute earlier text)
        _ = substitute (later.union earlier) text := substitute_substitute htext hvalues later
        _ = substitute (earlier.union later) text := by rw [NameMap.union_comm hnames]
        _ = substitute earlier (substitute later text) :=
            (substitute_substitute htext hlater earlier).symm

/-- Two references side by side, of which each pass knows one. -/
theorem passes_chain_adjacent :
    let text := "a\x7b\x7bx\x7d\x7d\x7b\x7b y \x7d\x7db"
    let earlier := NameMap.ofList [("x", "1")]
    let later := NameMap.ofList [("y", "2")]
    BracesInReferences text.toList ∧ UnbracedValues earlier ∧ UnbracedValues later ∧
      (∀ name, earlier.get? name = none ∨ later.get? name = none) ∧ PassesChain text earlier ∧
      substitute earlier text = "a1\x7b\x7b y \x7d\x7db" ∧
      substitute later (substitute earlier text) = "a12b" ∧
      substitute earlier (substitute later text) = "a12b" := by
  have htext : BracesInReferences "a\x7b\x7bx\x7d\x7d\x7b\x7b y \x7d\x7db".toList := by
    refine ⟨"a".toList, [⟨"x", "\x7b\x7bx\x7d\x7d".toList, []⟩,
      ⟨"y", "\x7b\x7b y \x7d\x7d".toList, "b".toList⟩], by decide +kernel, by decide, ?_⟩
    rw [List.forall_mem_cons, List.forall_mem_singleton]
    refine ⟨⟨⟨by decide, [], [], ?_⟩, by decide⟩, ⟨by decide, [' '], [' '], ?_⟩, by decide⟩
    · exact ⟨by simp, by simp, by decide +kernel⟩
    · exact ⟨by simp [isBlank], by simp [isBlank], by decide +kernel⟩
  have hvalues : ∀ name value, Unbraced value → UnbracedValues (.ofList [(name, value)]) := by
    intro name value hvalue name' value' h
    rw [NameMap.get?_eq_some_iff] at h
    have he : (name', value') = (name, value) := List.mem_singleton.mp h
    cases he
    exact hvalue
  have hnames : ∀ name, (NameMap.ofList [("x", "1")]).get? name = none ∨
      (NameMap.ofList [("y", "2")]).get? name = none := by
    intro name
    by_cases hx : name = "x"
    · subst hx
      exact .inr (by decide)
    · refine .inl (NameMap.get?_insertAll_of_not_mem _ fun e he heq => hx ?_)
      rw [← heq, List.mem_singleton.mp he]
  exact ⟨htext, hvalues _ _ (by decide), hvalues _ _ (by decide), hnames,
    passes_chain htext (hvalues _ _ (by decide)), by decide +kernel, by decide +kernel,
    by decide +kernel⟩

end PageLoom
