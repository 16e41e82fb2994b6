import PageLoom.Markup.Reference
import PageLoom.Proofs.Span.Restore
import PageLoom.Proofs.Text.Classes

/-!
# References in a text

A reference is two braces that open, a name with blanks around it, and two braces that close
(`IsReference`): this is what `scanReference?` reads.  So no reference goes on across two braces
that open: the references of a text up to there, and those from there on, are the references of the
whole (`references_append`).  A name in double braces is always a reference, whatever stands around
it (`substituted_append_reference`).
-/

namespace PageLoom

/-! ## One reference -/

/-- A reference is two braces, a name with blanks around it, and two braces. -/
theorem scanReference?_eq_some_iff {cs name rest : List Char} :
    scanReference? cs = some (name, rest) ↔ ∃ inside after, cs = '{' :: '{' :: inside ∧
      scanName? (dropBlank inside) = some (name, after) ∧ dropBlank after = '}' :: '}' :: rest := by
  constructor
  · intro h
    unfold scanReference? at h
    split at h
    next inside =>
      split at h
      next => cases h
      next name' after hname =>
        split at h
        next rest' hclose =>
          cases h
          exact ⟨inside, after, rfl, hname, hclose⟩
        next => cases h
    next => cases h
  · rintro ⟨inside, after, rfl, hname, hclose⟩
    rw [scanReference?, hname]
    dsimp only
    rw [hclose]
    rfl

theorem scanName?_eq_some {cs name rest : List Char} (h : scanName? cs = some (name, rest)) :
    cs = name ++ rest := by
  cases cs with
  | nil => cases h
  | cons c cs =>
      rw [scanName?] at h
      split at h
      next =>
        cases h
        rw [List.cons_append, List.takeWhile_append_dropWhile]
      next => cases h

/-- A name ends before a brace. -/
theorem scanName?_append (w x : List Char) : scanName? (w ++ '{' :: x) =
    (scanName? w).map fun (name, rest) => (name, rest ++ '{' :: x) := by
  have hbrace : isVarRest '{' = false := by decide
  cases w with
  | nil => rfl
  | cons c w =>
      rw [List.cons_append, scanName?, scanName?]
      split
      · rw [takeWhile_append_cons hbrace, dropWhile_append_cons hbrace]
        rfl
      · rfl

theorem dropBlank_append (w x : List Char) :
    dropBlank (w ++ '{' :: x) = dropBlank w ++ '{' :: x := dropWhile_append_cons (by decide) w x

/-- A reference that starts before two braces that open is closed before them. -/
theorem scanReference?_append {w : List Char} (hw : w ≠ []) (x : List Char) :
    scanReference? (w ++ '{' :: '{' :: x) =
      (scanReference? w).map fun (name, rest) => (name, rest ++ '{' :: '{' :: x) := by
  ext ⟨name, r⟩
  rw [Option.map_eq_some_iff]
  constructor
  · intro h
    obtain ⟨inside, after, hcs, hname, hclose⟩ := scanReference?_eq_some_iff.mp h
    -- Both braces of the reference stand before the other ones.
    obtain ⟨w, rfl, rfl⟩ : ∃ w', w = '{' :: '{' :: w' ∧ inside = w' ++ '{' :: '{' :: x := by
      rcases w with _ | ⟨c, _ | ⟨d, w⟩⟩
      · exact absurd rfl hw
      · cases hcs
        cases hname
      · cases hcs
        exact ⟨w, rfl, rfl⟩
    rw [dropBlank_append, scanName?_append] at hname
    obtain ⟨⟨name', after'⟩, hname', heq⟩ := Option.map_eq_some_iff.mp hname
    cases heq
    rw [dropBlank_append] at hclose
    rcases hafter : dropBlank after' with _ | ⟨c, _ | ⟨d, rest⟩⟩
    · rw [hafter] at hclose
      cases hclose
    · rw [hafter] at hclose
      cases hclose
    · rw [hafter] at hclose
      cases hclose
      exact ⟨(name, rest), scanReference?_eq_some_iff.mpr ⟨w, after', rfl, hname', hafter⟩, rfl⟩
  · rintro ⟨⟨name', rest⟩, h, heq⟩
    cases heq
    obtain ⟨inside, after, rfl, hname, hclose⟩ := scanReference?_eq_some_iff.mp h
    refine scanReference?_eq_some_iff.mpr
      ⟨inside ++ '{' :: '{' :: x, after ++ '{' :: '{' :: x, rfl, ?_, ?_⟩
    · rw [dropBlank_append, scanName?_append, hname]
      rfl
    · rw [dropBlank_append, hclose]
      rfl

/-! ## Names -/

/-- Whether a text can be the name of a variable. -/
def isVariable (name : String) : Bool :=
  match name.toList with
  | [] => false
  | c :: cs => isVarStart c && cs.all isVarRest

theorem exists_of_isVariable {name : String} (h : isVariable name = true) :
    ∃ c cs, name.toList = c :: cs ∧ isVarStart c = true ∧ ∀ d ∈ cs, isVarRest d = true := by
  unfold isVariable at h
  split at h
  next => cases h
  next c cs hname =>
    rw [Bool.and_eq_true, List.all_eq_true] at h
    exact ⟨c, cs, hname, h.1, h.2⟩

theorem visible_of_isVarStart {c : Char} (h : isVarStart c = true) :
    0x20 < c.toNat ∧ c.toNat < 0x7F := by
  rw [isVarStart, Bool.or_eq_true, beq_iff_eq] at h
  rcases h with halpha | rfl
  · exact visible_of_isAlphanum (by rw [Char.isAlphanum, halpha, Bool.true_or])
  · decide

theorem isBlank_of_isVarRest {c : Char} (h : isVarRest c = true) : isBlank c = false := by
  rw [isVarRest, Bool.or_eq_true, beq_iff_eq] at h
  rcases h with halphanum | rfl
  · obtain ⟨hlow, hhigh⟩ := visible_of_isAlphanum halphanum
    exact isBlank_of_visible hlow hhigh
  · decide

/-- A name ends before blanks and a brace. -/
theorem span_isVarRest {name after : List Char} (hname : ∀ c ∈ name, isVarRest c = true)
    (hafter : ∀ c ∈ after, isBlank c = true) (rest : List Char) :
    (name ++ (after ++ '}' :: rest)).takeWhile isVarRest = name ∧
      (name ++ (after ++ '}' :: rest)).dropWhile isVarRest = after ++ '}' :: rest := by
  obtain ⟨c, cs, hcs, hc⟩ : ∃ c cs, after ++ '}' :: rest = c :: cs ∧ isVarRest c = false := by
    cases after with
    | nil => exact ⟨'}', rest, rfl, by decide⟩
    | cons c after =>
        refine ⟨c, after ++ '}' :: rest, rfl, ?_⟩
        by_contra hc
        have hblank := isBlank_of_isVarRest (Bool.not_eq_false _ ▸ hc)
        rw [hafter c List.mem_cons_self] at hblank
        cases hblank
  rw [hcs, takeWhile_append_cons hc, dropWhile_append_cons hc,
    List.takeWhile_eq_self_iff.mpr hname, List.dropWhile_eq_nil_iff.mpr hname]
  exact ⟨rfl, rfl⟩

/-! ## References as they are written -/

/-- Whether a text is a reference to a name. -/
def IsReference (name : String) (written : List Char) : Prop :=
  isVariable name = true ∧ ∃ before after : List Char,
    (∀ c ∈ before, isBlank c = true) ∧ (∀ c ∈ after, isBlank c = true) ∧
    written = '{' :: '{' :: (before ++ (name.toList ++ (after ++ ['}', '}'])))

namespace IsReference

variable {name : String} {written : List Char}

theorem ne_nil (h : IsReference name written) : written ≠ [] := by
  obtain ⟨-, before, after, -, -, rfl⟩ := h
  exact List.cons_ne_nil _ _

theorem exists_braces (h : IsReference name written) :
    ∃ inside, written = '{' :: '{' :: inside := by
  obtain ⟨-, before, after, -, -, rfl⟩ := h
  exact ⟨_, rfl⟩

theorem name_infix (h : IsReference name written) : name.toList <:+: written := by
  obtain ⟨-, before, after, -, -, rfl⟩ := h
  exact ⟨'{' :: '{' :: before, after ++ ['}', '}'], by simp⟩

/-- A reference is read where it stands, whatever follows. -/
theorem scan (h : IsReference name written) (rest : List Char) :
    scanReference? (written ++ rest) = some (name.toList, rest) := by
  obtain ⟨hname, before, after, hbefore, hafter, rfl⟩ := h
  obtain ⟨c, cs, hcs, hc, hrest⟩ := exists_of_isVariable hname
  obtain ⟨hlow, hhigh⟩ := visible_of_isVarStart hc
  obtain ⟨htake, hdrop⟩ := span_isVarRest hrest hafter ('}' :: rest)
  refine scanReference?_eq_some_iff.mpr
    ⟨before ++ (name.toList ++ (after ++ '}' :: '}' :: rest)), after ++ '}' :: '}' :: rest,
      ?_, ?_, ?_⟩
  · simp
  · rw [dropBlank, List.dropWhile_append_of_pos hbefore, ← dropBlank, hcs, List.cons_append,
      dropBlank_cons_of_not (isBlank_of_visible hlow hhigh), scanName?, if_pos hc, htake, hdrop]
  · rw [dropBlank, List.dropWhile_append_of_pos hafter]
    rfl

end IsReference

/-- What is read is a reference. -/
theorem exists_isReference {cs name rest : List Char}
    (h : scanReference? cs = some (name, rest)) :
    ∃ written, cs = written ++ rest ∧ IsReference (String.ofList name) written := by
  obtain ⟨inside, after, rfl, hname, hclose⟩ := scanReference?_eq_some_iff.mp h
  have hinside : inside = inside.takeWhile isBlank ++ (name ++ after) := by
    rw [← scanName?_eq_some hname]
    exact List.takeWhile_append_dropWhile.symm
  have hafter : after = after.takeWhile isBlank ++ '}' :: '}' :: rest := by
    rw [← hclose]
    exact List.takeWhile_append_dropWhile.symm
  refine ⟨'{' :: '{' :: (inside.takeWhile isBlank ++ (name ++ (after.takeWhile isBlank ++
    ['}', '}']))), ?_, ?_, inside.takeWhile isBlank, after.takeWhile isBlank,
    fun c hc => List.mem_takeWhile_imp hc, fun c hc => List.mem_takeWhile_imp hc, ?_⟩
  · conv => lhs; rw [hinside, hafter]
    simp only [List.append_assoc, List.cons_append, List.nil_append]
  · rw [isVariable, String.toList_ofList]
    cases hblank : dropBlank inside with
    | nil => simp [hblank, scanName?] at hname
    | cons c cs =>
        rw [hblank, scanName?] at hname
        split at hname
        next hc =>
          cases hname
          simp only [hc, Bool.true_and, List.all_eq_true]
          intro d hd
          exact List.mem_takeWhile_imp hd
        next => cases hname
  · rw [String.toList_ofList]

/-! ## The references of a text -/

theorem referencesFrom_eq (n : Nat) (cs : List Char) :
    referencesFrom n cs = references (cs.drop n) := by
  induction cs generalizing n with
  | nil => cases n <;> rfl
  | cons c cs ih =>
      cases n with
      | zero => rfl
      | succ n => exact ih n

theorem references_cons_of_none {c : Char} {cs : List Char}
    (h : scanReference? (c :: cs) = none) : references (c :: cs) = .char c :: references cs := by
  rw [references, referencesFrom, h]
  rfl

theorem IsReference.references_append {name : String} {written : List Char}
    (h : IsReference name written) (rest : List Char) :
    references (written ++ rest) = .reference name.toList written :: references rest := by
  have hscan := h.scan rest
  cases written with
  | nil => exact absurd rfl h.ne_nil
  | cons c cs =>
      rw [List.cons_append] at hscan ⊢
      rw [references, referencesFrom, hscan]
      have hn : (cs ++ rest).length - rest.length = cs.length := by
        rw [List.length_append, Nat.add_sub_cancel]
      simp only [hn, List.take_left, referencesFrom_eq, List.drop_left]

/-- Induction along the references of a text. -/
theorem references_induct {P : List Char → Prop} (nil : P [])
    (char : ∀ c cs, scanReference? (c :: cs) = none → P cs → P (c :: cs))
    (reference : ∀ name written rest, IsReference name written → P rest → P (written ++ rest))
    (cs : List Char) : P cs := by
  generalize hn : cs.length = n
  induction n using Nat.strongRecOn generalizing cs with
  | ind n ih =>
      cases cs with
      | nil => exact nil
      | cons c cs =>
          rw [List.length_cons] at hn
          cases hscan : scanReference? (c :: cs) with
          | none => exact char c cs hscan (ih _ (by omega) cs rfl)
          | some found =>
              obtain ⟨name, rest⟩ := found
              obtain ⟨written, hcs, hwritten⟩ := exists_isReference hscan
              have hlength := congrArg List.length hcs
              have hpos := List.length_pos_iff.mpr hwritten.ne_nil
              rw [List.length_cons, List.length_append] at hlength
              rw [hcs]
              exact reference _ written rest hwritten (ih _ (by omega) rest rfl)

theorem written_references (cs : List Char) :
    (references cs).flatMap TextPart.written = cs := by
  induction cs using references_induct with
  | nil => rfl
  | char c cs hscan ih =>
      rw [references_cons_of_none hscan, List.flatMap_cons, ih]
      rfl
  | reference name written rest hwritten ih =>
      rw [hwritten.references_append, List.flatMap_cons, ih]
      rfl

/-- The name of a reference occurs in the text. -/
theorem name_infix_of_mem_references {cs name written : List Char}
    (h : .reference name written ∈ references cs) : name <:+: cs := by
  induction cs using references_induct with
  | nil => cases h
  | char c cs hscan ih =>
      rw [references_cons_of_none hscan] at h
      rcases List.mem_cons.mp h with h | h
      · cases h
      · exact (ih h).trans (List.suffix_cons c cs).isInfix
  | reference name' written' rest hwritten ih =>
      rw [hwritten.references_append] at h
      rcases List.mem_cons.mp h with h | h
      · cases h
        exact hwritten.name_infix.trans (List.prefix_append _ _).isInfix
      · exact (ih h).trans (List.suffix_append _ _).isInfix

/-- No reference goes on across two braces that open. -/
theorem references_append (w x : List Char) : references (w ++ '{' :: '{' :: x) =
    references w ++ references ('{' :: '{' :: x) := by
  induction w using references_induct with
  | nil => rfl
  | char c w hscan ih =>
      have hnone : scanReference? (c :: (w ++ '{' :: '{' :: x)) = none := by
        rw [← List.cons_append, scanReference?_append (List.cons_ne_nil c w), hscan]
        rfl
      rw [references_cons_of_none hscan, List.cons_append, List.cons_append,
        references_cons_of_none hnone, ih]
  | reference name written rest hwritten ih =>
      rw [hwritten.references_append, List.append_assoc, hwritten.references_append, ih,
        List.cons_append]

/-- A name in double braces is a reference to it. -/
theorem isReference_reference {p : String} (hp : isVariable p = true) :
    IsReference p (reference p).toList :=
  ⟨hp, [], [], by simp, by simp, toList_reference p⟩

/-! ## Substitution -/

/-- The characters of a text with the values of its variables in their places. -/
def substituted (vars : NameMap String) (cs : List Char) : List Char :=
  (references cs).flatMap (TextPart.fill vars)

variable {vars : NameMap String}

theorem substitute_eq (vars : NameMap String) (text : String) :
    substitute vars text = String.ofList (substituted vars text.toList) := rfl

/-- What stands for a reference. -/
def NameMap.valueOf (vars : NameMap String) (p : String) : List Char :=
  match vars.get? p with
  | some value => value.toList
  | none => (reference p).toList

/-- A name in braces is a reference, whatever stands before and after it. -/
theorem substituted_append_reference {p : String} (hp : isVariable p = true) (w x : List Char) :
    substituted vars (w ++ ((reference p).toList ++ x)) =
      substituted vars w ++ (vars.valueOf p ++ substituted vars x) := by
  have happend : references (w ++ ((reference p).toList ++ x)) =
      references w ++ references ((reference p).toList ++ x) := by
    rw [toList_reference]
    exact references_append w _
  rw [substituted, happend, (isReference_reference hp).references_append, List.flatMap_append,
    List.flatMap_cons, TextPart.fill, String.ofList_toList]
  rfl

/-- A text in which no reference has a value stays as it is. -/
theorem substituted_eq_self {cs : List Char}
    (h : ∀ name : String, name.toList <:+: cs → vars.get? name = none) :
    substituted vars cs = cs := by
  conv => rhs; rw [← written_references cs]
  refine List.flatMap_congr fun part hpart => ?_
  cases part with
  | char c => rfl
  | reference name written =>
      have hnone := h (String.ofList name)
        (by rw [String.toList_ofList]; exact name_infix_of_mem_references hpart)
      rw [TextPart.fill, hnone]
      rfl

end PageLoom
