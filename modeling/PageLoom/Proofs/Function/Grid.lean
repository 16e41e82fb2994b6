import PageLoom.Function.Grid
import PageLoom.Proofs.Call.Arguments
import PageLoom.Proofs.Markup.Blocks

/-!
# Tables show what they are given

The arguments of `table` ask for a sheet: a caption, a header, and rows of cells with the texts of
the given values (`Asks`).  They ask for none if an argument has the wrong type (`Faulty`), and then
the first of them in the order caption, header, rows is reported (`Refuses`).

A table is rendered as the block of its sheet, so reading the markup gives the sheet back
(`showsGrid_table`).  This holds for all texts without line breaks, since these are escaped, and for
rows of any lengths.
-/

namespace PageLoom.Grid

open Markup

/-! ## Sheets -/

/-- The kinds of cells: those that head a row or column, and those with data. -/
inductive Kind
  | head | data

/-- The name of the element of a cell. -/
def Kind.name : Kind → String
  | .head => "th"
  | .data => "td"

/-- A cell: its kind and its text. -/
abbrev Cell := Kind × String

/-- What a table shows. -/
structure Sheet where
  /-- The caption. -/
  caption : Option String
  /-- The texts of the header. -/
  header : Option (List String)
  /-- The rows of the body. -/
  rows : List (List Cell)

namespace Sheet

/-- A row of cells. -/
def rowBlock (cells : List Cell) : Block := .group "tr" (cells.map fun c => .cell c.1.name c.2)

/-- The cells of a header. -/
def headerCells (texts : List String) : List Cell := texts.map fun t => (.head, t)

/-- The elements of a sheet. -/
def block (s : Sheet) : Block :=
  .group "table" (s.caption.toList.map (.cell "caption") ++
    s.header.toList.map (fun texts => .group "thead" [rowBlock (headerCells texts)]) ++
    [.group "tbody" (s.rows.map rowBlock)])

/-- The texts of a sheet. -/
def texts (s : Sheet) : List String :=
  s.caption.toList ++ s.header.toList.flatten ++ s.rows.flatten.map Prod.snd

end Sheet

/-! ## What arguments ask for -/

/-- The cells of a row in the body. -/
def bodyCells (items : List Value) : List Cell := items.map fun v => (.data, v.text)

/-- The cells of an entry. -/
def entryCells (e : Value × Value) : List Cell := [(.head, e.1.text), (.data, e.2.text)]

/-- Whether a list or tuple of items makes these cells. -/
def IsRow (r : Value) (cells : List Cell) : Prop :=
  ∃ items, r.items? = some items ∧ cells = bodyCells items

/-- The rows that a value asks for. -/
inductive HasRows : Value → List (List Cell) → Prop
  | entries (es : List (Value × Value)) : HasRows (.dict es) (es.map entryCells)
  | items {v : Value} {vs : List Value} {rows : List (List Cell)} : v.items? = some vs →
      List.Forall₂ IsRow vs rows →
      HasRows v rows

/-- The sheet that arguments ask for. -/
structure Asks (args : Arguments) (s : Sheet) : Prop where
  caption : args.get? "caption" = s.caption.map Value.str
  header : args.get? "header" = none ∧ s.header = none ∨
    ∃ v items, args.get? "header" = some v ∧ v.items? = some items ∧
      s.header = some (items.map Value.text)
  rows : ∃ v, args.get? "rows" = some v ∧ HasRows v s.rows

/-- Whether some argument is not as it should be. -/
inductive Faulty (args : Arguments) : Prop
  /-- The caption is no string. -/
  | caption {v : Value} : args.get? "caption" = some v → v.string? = none → Faulty args
  /-- The header is no list or tuple. -/
  | header {v : Value} : args.get? "header" = some v → v.items? = none → Faulty args
  /-- There are no rows. -/
  | missing : args.get? "rows" = none → Faulty args
  /-- The rows are neither dictionary, list nor tuple. -/
  | rows {v : Value} : args.get? "rows" = some v → v.entries? = none → v.items? = none → Faulty args
  /-- A row is no list or tuple. -/
  | row {v r : Value} {vs : List Value} : args.get? "rows" = some v → v.items? = some vs → r ∈ vs →
      r.items? = none → Faulty args

/-- Whether the caption is a string if there is one. -/
abbrev CaptionFits (args : Arguments) : Prop := args.Fits "caption" Value.string?

/-- Whether the header is a list or tuple if there is one. -/
abbrev HeaderFits (args : Arguments) : Prop := args.Fits "header" Value.items?

/-- Whether the row of a number is the first that is no list or tuple. -/
structure IsFirstBad (vs : List Value) (i : Nat) (r : Value) : Prop where
  here : vs[i]? = some r
  bad : r.items? = none
  before : ∀ j < i, ∀ q, vs[j]? = some q → q.items?.isSome

/-- The error that arguments lead to: the first of caption, header and rows that is not as it should
be, and the first row that is none. -/
inductive Refuses (args : Arguments) : FunctionError → Prop
  | caption {v : Value} : args.get? "caption" = some v → v.string? = none →
      Refuses args (.mismatch "caption" .string v.type)
  | header {v : Value} : CaptionFits args → args.get? "header" = some v → v.items? = none →
      Refuses args (.mismatch "header" .list v.type)
  | missing : CaptionFits args → HeaderFits args → args.get? "rows" = none →
      Refuses args (.missing "rows")
  | rows {v : Value} : CaptionFits args → HeaderFits args → args.get? "rows" = some v →
      v.entries? = none → v.items? = none → Refuses args (.mismatch "rows" .list v.type)
  | row {v r : Value} {vs : List Value} {i : Nat} : CaptionFits args → HeaderFits args →
      args.get? "rows" = some v → v.items? = some vs → IsFirstBad vs i r →
      Refuses args (.mismatch ("rows[" ++ toString i ++ "]") .list r.type)

/-! ## Parts of a table -/

/-- A row of cells of one kind is the fragment of a block whose leaves are the texts of the
values. -/
theorem row_eq (kind : Kind) (vs : List Value) :
    row kind.name vs = (Sheet.rowBlock (vs.map fun v => (kind, v.text))).fragment := by
  rw [row, Sheet.rowBlock, Block.fragment, Block.fragments_eq_map, List.map_map, List.map_map]
  rfl

/-- There is a caption element exactly when the caption is passed, and then it is a string. -/
theorem caption_eq_ok_iff {args : Arguments} {fs : List Fragment} : caption args = .ok fs ↔
    ∃ o : Option String, args.get? "caption" = o.map Value.str ∧
      fs = Block.fragments (o.toList.map (.cell "caption")) := by
  rw [caption, bind_eq_ok_iff]
  simp only [Arguments.string?_eq_ok_iff]
  refine exists_congr fun o => and_congr_right fun _ => ?_
  cases o with
  | none => simp [Block.fragments, pure, Except.pure, eq_comm]
  | some s => simp [Block.fragments, Block.fragment, pure, Except.pure, eq_comm]

theorem caption_eq_error_iff {args : Arguments} {e : FunctionError} : caption args = .error e ↔
    ∃ v, args.get? "caption" = some v ∧ v.string? = none ∧
      e = .mismatch "caption" .string v.type := by
  rw [caption, bind_eq_error_iff, Arguments.string?, Arguments.optional_eq_error_iff]
  refine or_iff_left ?_
  rintro ⟨o, -, h⟩
  cases o <;> cases h

theorem header_eq_ok_iff {args : Arguments} {fs : List Fragment} : header args = .ok fs ↔
    ∃ o : Option (List String), (args.get? "header" = none ∧ o = none ∨
      ∃ v items, args.get? "header" = some v ∧ v.items? = some items ∧
        o = some (items.map Value.text)) ∧
      fs = Block.fragments
        (o.toList.map fun texts => .group "thead" [Sheet.rowBlock (Sheet.headerCells texts)]) := by
  rw [header]
  cases hv : args.get? "header" with
  | none => simp [Block.fragments, pure, Except.pure, eq_comm]
  | some v =>
      have hrow : ∀ items : List Value, row "th" items =
          (Sheet.rowBlock (Sheet.headerCells (items.map Value.text))).fragment := fun items => by
        rw [Sheet.headerCells, List.map_map]
        exact row_eq .head items
      constructor
      · intro h
        obtain ⟨items, hitems, hfs⟩ := bind_eq_ok_iff.mp h
        obtain ⟨w, hw, hitems⟩ := Arguments.items_eq_ok_iff.mp hitems
        cases hv.symm.trans hw
        cases hfs
        refine ⟨some (items.map Value.text), .inr ⟨v, items, rfl, hitems, rfl⟩, ?_⟩
        rw [hrow]
        rfl
      · rintro ⟨o, ⟨hnone, -⟩ | ⟨w, items, hw, hitems, rfl⟩, rfl⟩
        · cases hnone
        · cases hw
          refine bind_eq_ok_iff.mpr ⟨items, Arguments.items_eq_ok_iff.mpr ⟨v, hv, hitems⟩, ?_⟩
          rw [hrow]
          rfl

/-- The header is refused only for not being a list; what its entries are does not matter, since
each has a text. -/
theorem header_eq_error_iff {args : Arguments} {e : FunctionError} : header args = .error e ↔
    ∃ v, args.get? "header" = some v ∧ v.items? = none ∧ e = .mismatch "header" .list v.type := by
  rw [header]
  cases hv : args.get? "header" with
  | none => simp [pure, Except.pure]
  | some v =>
      refine Iff.trans bind_eq_error_iff (Iff.trans (or_iff_left ?_) ?_)
      · rintro ⟨items, -, h⟩
        cases h
      · rw [Arguments.items_eq_error_iff, hv]
        exact or_iff_right fun h => by cases h.1

/-! ## Rows -/

/-- The rows are built exactly when every value is a row, and then they stand in the order of the
values. -/
theorem rowsFrom_eq_ok_iff {i : Nat} {vs : List Value} {fs : List Fragment} :
    rowsFrom i vs = .ok fs ↔
      ∃ rows, List.Forall₂ IsRow vs rows ∧ fs = Block.fragments (rows.map Sheet.rowBlock) := by
  induction vs generalizing i fs with
  | nil =>
      rw [rowsFrom]
      constructor
      · rintro ⟨⟩
        exact ⟨[], .nil, rfl⟩
      · rintro ⟨rows, hrows, rfl⟩
        cases hrows
        rfl
  | cons v vs ih =>
      rw [rowsFrom]
      constructor
      · intro h
        split at h
        next => cases h
        next items hitems =>
          split at h
          next => cases h
          next gs hgs =>
            cases h
            obtain ⟨rows, hrows, rfl⟩ := ih.mp hgs
            exact ⟨bodyCells items :: rows, .cons ⟨items, hitems, rfl⟩ hrows,
              congrArg (· :: _) (row_eq .data items)⟩
      · rintro ⟨rows, hrows, rfl⟩
        obtain _ | ⟨⟨items, hitems, rfl⟩, hrows⟩ := hrows
        rw [hitems, ih.mpr ⟨_, hrows, rfl⟩]
        exact congrArg (Except.ok <| · :: _) (row_eq .data items)

theorem isFirstBad_cons_of_none {v : Value} (hv : v.items? = none) {vs : List Value} {i : Nat}
    {r : Value} : IsFirstBad (v :: vs) i r ↔ i = 0 ∧ r = v := by
  constructor
  · intro h
    cases i with
    | zero => exact ⟨rfl, (Option.some.inj h.here).symm⟩
    | succ i =>
        have hsome := h.before 0 (Nat.succ_pos i) v rfl
        rw [hv] at hsome
        cases hsome
  · rintro ⟨rfl, rfl⟩
    exact ⟨rfl, hv, fun j hj => absurd hj (Nat.not_lt_zero j)⟩

theorem isFirstBad_cons_of_some {v : Value} {items : List Value} (hv : v.items? = some items)
    {vs : List Value} {i : Nat} {r : Value} :
    IsFirstBad (v :: vs) i r ↔ ∃ j, i = j + 1 ∧ IsFirstBad vs j r := by
  constructor
  · intro h
    cases i with
    | zero =>
        cases h.here
        cases hv.symm.trans h.bad
    | succ i =>
        exact ⟨i, rfl, h.here, h.bad, fun j hj q hq => h.before (j + 1) (Nat.succ_lt_succ hj) q hq⟩
  · rintro ⟨j, rfl, h⟩
    refine ⟨h.here, h.bad, ?_⟩
    rintro (_ | k) hk q hq
    · cases hq
      rw [hv]
      rfl
    · exact h.before k (Nat.lt_of_succ_lt_succ hk) q hq

/-- The first row that is no list or tuple is refused. -/
theorem rowsFrom_eq_error_iff {i : Nat} {vs : List Value} {e : FunctionError} :
    rowsFrom i vs = .error e ↔ ∃ j r, IsFirstBad vs j r ∧
      e = .mismatch ("rows[" ++ toString (i + j) ++ "]") .list r.type := by
  induction vs generalizing i with
  | nil =>
      rw [rowsFrom]
      constructor
      · intro h
        cases h
      · rintro ⟨j, r, h, -⟩
        cases h.here
  | cons v vs ih =>
      rw [rowsFrom]
      cases hv : v.items? with
      | none =>
          simp only [isFirstBad_cons_of_none hv]
          constructor
          · rintro ⟨⟩
            exact ⟨0, v, ⟨rfl, rfl⟩, rfl⟩
          · rintro ⟨_, _, ⟨rfl, rfl⟩, rfl⟩
            rfl
      | some items =>
          have hnext : (∃ j r, IsFirstBad (v :: vs) j r ∧
                e = .mismatch ("rows[" ++ toString (i + j) ++ "]") .list r.type) ↔
              rowsFrom (i + 1) vs = .error e := by
            simp only [ih, isFirstBad_cons_of_some hv, Nat.add_assoc, Nat.add_comm 1]
            constructor
            · rintro ⟨_, r, ⟨j, rfl, h⟩, he⟩
              exact ⟨j, r, h, he⟩
            · rintro ⟨j, r, h, he⟩
              exact ⟨j + 1, r, ⟨j, rfl, h⟩, he⟩
          rw [hnext]
          cases rowsFrom (i + 1) vs <;> simp

/-- The rows are entries or items. -/
theorem body_eq_ok_iff {args : Arguments} {fs : List Fragment} : body args = .ok fs ↔
    ∃ v rows, args.get? "rows" = some v ∧ HasRows v rows ∧
      fs = Block.fragments (rows.map Sheet.rowBlock) := by
  rw [body, bind_eq_ok_iff]
  simp only [Arguments.require_eq_ok_iff]
  constructor
  · rintro ⟨v, hv, h⟩
    split at h
    next es =>
      cases h
      refine ⟨_, _, hv, .entries es, ?_⟩
      rw [Block.fragments_eq_map, List.map_map, List.map_map]
      rfl
    next =>
      obtain ⟨items, hitems, hfs⟩ := bind_eq_ok_iff.mp h
      obtain ⟨w, hw, hitems⟩ := Arguments.items_eq_ok_iff.mp hitems
      cases hv.symm.trans hw
      obtain ⟨rows, hrows, rfl⟩ := rowsFrom_eq_ok_iff.mp hfs
      exact ⟨v, rows, hv, .items hitems hrows, rfl⟩
  · rintro ⟨v, rows, hv, hrows, rfl⟩
    refine ⟨v, hv, ?_⟩
    cases hrows with
    | entries es =>
        rw [Block.fragments_eq_map, List.map_map, List.map_map]
        rfl
    | items hitems hrows =>
        have hread := bind_eq_ok_iff.mpr
          ⟨_, Arguments.items_eq_ok_iff.mpr ⟨v, hv, hitems⟩,
            rowsFrom_eq_ok_iff (i := 0).mpr ⟨_, hrows, rfl⟩⟩
        split
        next => cases hitems
        next => exact hread

/-- The rows are refused when they are missing, when they are not a list, or at the first of them
that is not a list itself, which the error names by its position. -/
theorem body_eq_error_iff {args : Arguments} {e : FunctionError} : body args = .error e ↔
    (args.get? "rows" = none ∧ e = .missing "rows") ∨
    (∃ v, args.get? "rows" = some v ∧ v.entries? = none ∧ v.items? = none ∧
      e = .mismatch "rows" .list v.type) ∨
    ∃ (v r : Value) (vs : List Value) (i : Nat), args.get? "rows" = some v ∧ v.items? = some vs ∧
      IsFirstBad vs i r ∧ e = .mismatch ("rows[" ++ toString i ++ "]") .list r.type := by
  rw [body, bind_eq_error_iff]
  simp only [Arguments.require_eq_ok_iff, Arguments.require_eq_error_iff]
  refine or_congr_right ?_
  constructor
  · rintro ⟨v, hv, h⟩
    split at h
    next => cases h
    next hdict =>
      rcases bind_eq_error_iff.mp h with h | ⟨vs, hitems, h⟩
      · rcases Arguments.items_eq_error_iff.mp h with ⟨hnone, -⟩ | ⟨w, hw, hnone, rfl⟩
        · cases hv.symm.trans hnone
        · cases hv.symm.trans hw
          refine .inl ⟨v, hv, ?_, hnone, rfl⟩
          cases v with
          | dict es => exact absurd rfl (hdict es)
          | _ => rfl
      · obtain ⟨w, hw, hitems⟩ := Arguments.items_eq_ok_iff.mp hitems
        cases hv.symm.trans hw
        obtain ⟨i, r, hbad, he⟩ := rowsFrom_eq_error_iff.mp h
        rw [Nat.zero_add] at he
        exact .inr ⟨v, r, vs, i, hv, hitems, hbad, he⟩
  · rintro (⟨v, hv, hentries, hnone, rfl⟩ | ⟨v, r, vs, i, hv, hitems, hbad, rfl⟩)
    · refine ⟨v, hv, ?_⟩
      have hread : args.items "rows" = .error (.mismatch "rows" .list v.type) :=
        Arguments.items_eq_error_iff.mpr (.inr ⟨v, hv, hnone, rfl⟩)
      split
      next => cases hentries
      next => exact bind_eq_error_iff.mpr (.inl hread)
    · refine ⟨v, hv, ?_⟩
      have hrows : rowsFrom 0 vs = .error (.mismatch ("rows[" ++ toString i ++ "]") .list r.type) :=
        rowsFrom_eq_error_iff.mpr ⟨i, r, hbad, by rw [Nat.zero_add]⟩
      split
      next => cases hitems
      next =>
        exact bind_eq_error_iff.mpr (.inr ⟨vs, Arguments.items_eq_ok_iff.mpr ⟨v, hv, hitems⟩,
          hrows⟩)

/-! ## The table -/

theorem Sheet.fragment_block (s : Sheet) : s.block.fragment =
    nest "table" [] (Block.fragments (s.caption.toList.map (.cell "caption")) ++
      Block.fragments (s.header.toList.map fun texts =>
        .group "thead" [rowBlock (headerCells texts)]) ++
      [nest "tbody" [] (Block.fragments (s.rows.map rowBlock))]) := by
  rw [block, Block.fragment]
  simp only [Block.fragments_eq_map, List.map_append, List.map_cons, List.map_nil, Block.fragment]

/-- The call answers with exactly the sheet that its arguments ask for. -/
theorem table_eq_ok_iff {id : String} {args : Arguments} {f : Fragment} :
    table id args = .ok f ↔ ∃ s, Asks args s ∧ f = s.block.fragment := by
  simp only [table, bind_eq_ok_iff, caption_eq_ok_iff, header_eq_ok_iff, body_eq_ok_iff]
  constructor
  · rintro ⟨_, ⟨o, hcaption, rfl⟩, _, ⟨p, hheader, rfl⟩, _, ⟨v, rows, hv, hrows, rfl⟩, h⟩
    refine ⟨⟨o, p, rows⟩, ⟨hcaption, hheader, v, hv, hrows⟩, ?_⟩
    rw [Sheet.fragment_block]
    exact (Except.ok.inj h).symm
  · rintro ⟨s, ⟨hcaption, hheader, v, hv, hrows⟩, rfl⟩
    refine ⟨_, ⟨s.caption, hcaption, rfl⟩, _, ⟨s.header, hheader, rfl⟩, _,
      ⟨v, s.rows, hv, hrows, rfl⟩, ?_⟩
    rw [Sheet.fragment_block]
    rfl

/-- The first argument that is not as it should be is refused. -/
theorem table_eq_error_iff {id : String} {args : Arguments} {e : FunctionError} :
    table id args = .error e ↔ Refuses args e := by
  have hcaption : CaptionFits args ↔ ∃ fs, caption args = .ok fs :=
    Arguments.fits_iff fun _ => caption_eq_error_iff
  have hheader : HeaderFits args ↔ ∃ fs, header args = .ok fs :=
    Arguments.fits_iff fun _ => header_eq_error_iff
  simp only [table, bind_eq_error_iff, caption_eq_error_iff, header_eq_error_iff, body_eq_error_iff]
  constructor
  · rintro (⟨v, hv, hnone, rfl⟩ | ⟨c, hc, ⟨v, hv, hnone, rfl⟩ | ⟨h, hh, hbody | ⟨_, _, hok⟩⟩⟩)
    · exact .caption hv hnone
    · exact .header (hcaption.mpr ⟨c, hc⟩) hv hnone
    · have hcfits := hcaption.mpr ⟨c, hc⟩
      have hhfits := hheader.mpr ⟨h, hh⟩
      rcases hbody with ⟨hnone, rfl⟩ | ⟨v, hv, hentries, hnone, rfl⟩ |
        ⟨v, r, vs, i, hv, hitems, hbad, rfl⟩
      · exact .missing hcfits hhfits hnone
      · exact .rows hcfits hhfits hv hentries hnone
      · exact .row hcfits hhfits hv hitems hbad
    · cases hok
  · rintro (⟨hv, hnone⟩ | ⟨hcfits, hv, hnone⟩ | ⟨hcfits, hhfits, hnone⟩ |
      ⟨hcfits, hhfits, hv, hentries, hnone⟩ | ⟨hcfits, hhfits, hv, hitems, hbad⟩)
    · exact .inl ⟨_, hv, hnone, rfl⟩
    · obtain ⟨c, hc⟩ := hcaption.mp hcfits
      exact .inr ⟨c, hc, .inl ⟨_, hv, hnone, rfl⟩⟩
    all_goals
      obtain ⟨c, hc⟩ := hcaption.mp hcfits
      obtain ⟨h, hh⟩ := hheader.mp hhfits
      refine .inr ⟨c, hc, .inr ⟨h, hh, .inl ?_⟩⟩
    · exact .inl ⟨hnone, rfl⟩
    · exact .inr (.inl ⟨_, hv, hentries, hnone, rfl⟩)
    · exact .inr (.inr ⟨_, _, _, _, hv, hitems, hbad, rfl⟩)

/-! ## What fails and what is shown -/

/-- Where some value is not a row, there is a first one. -/
theorem exists_isFirstBad {vs : List Value} {r : Value} (hr : r ∈ vs) (hnone : r.items? = none) :
    ∃ i q, IsFirstBad vs i q := by
  induction vs with
  | nil => cases hr
  | cons v vs ih =>
      cases hv : v.items? with
      | none => exact ⟨0, v, (isFirstBad_cons_of_none hv).mpr ⟨rfl, rfl⟩⟩
      | some items =>
          have hmem : r ∈ vs := by
            refine (List.mem_cons.mp hr).resolve_left ?_
            rintro rfl
            cases hv.symm.trans hnone
          obtain ⟨i, q, h⟩ := ih hmem
          exact ⟨i + 1, q, (isFirstBad_cons_of_some hv).mpr ⟨i, rfl, h⟩⟩

/-- Faulty arguments are those that at least one error fits. -/
theorem exists_refuses_iff {args : Arguments} : (∃ e, Refuses args e) ↔ Faulty args := by
  constructor
  · rintro ⟨e, h⟩
    cases h with
    | caption hv hnone => exact .caption hv hnone
    | header _ hv hnone => exact .header hv hnone
    | missing _ _ hnone => exact .missing hnone
    | rows _ _ hv hentries hnone => exact .rows hv hentries hnone
    | row _ _ hv hitems hbad => exact .row hv hitems (List.mem_of_getElem? hbad.here) hbad.bad
  · intro h
    by_cases hcfits : CaptionFits args
    case neg =>
      simp only [CaptionFits, Arguments.Fits, not_forall, Option.not_isSome_iff_eq_none] at hcfits
      obtain ⟨v, hv, hnone⟩ := hcfits
      exact ⟨_, .caption hv hnone⟩
    by_cases hhfits : HeaderFits args
    case neg =>
      simp only [HeaderFits, Arguments.Fits, not_forall, Option.not_isSome_iff_eq_none] at hhfits
      obtain ⟨v, hv, hnone⟩ := hhfits
      exact ⟨_, .header hcfits hv hnone⟩
    cases h with
    | caption hv hnone => exact ⟨_, .caption hv hnone⟩
    | header hv hnone => exact ⟨_, .header hcfits hv hnone⟩
    | missing hnone => exact ⟨_, .missing hcfits hhfits hnone⟩
    | rows hv hentries hnone => exact ⟨_, .rows hcfits hhfits hv hentries hnone⟩
    | row hv hitems hmem hnone =>
        obtain ⟨i, q, hbad⟩ := exists_isFirstBad hmem hnone
        exact ⟨_, .row hcfits hhfits hv hitems hbad⟩

namespace Sheet

theorem isBlockName_kind (kind : Kind) : IsBlockName kind.name := by
  cases kind with
  | head => exact ⟨by decide, by decide, by decide⟩
  | data => exact ⟨by decide, by decide, by decide⟩

theorem isReadable_rowBlock {cells : List Cell} (h : ∀ c ∈ cells, '\n' ∉ c.2.toList) :
    (rowBlock cells).IsReadable := by
  refine .group ⟨by decide, by decide, by decide⟩ fun b hb => ?_
  obtain ⟨c, hc, rfl⟩ := List.mem_map.mp hb
  exact .cell (isBlockName_kind c.1) (h c hc)

/-- Only line breaks stand in the way of reading a sheet back: an indented line break would come
back with the indentation in it. -/
theorem isReadable_block {s : Sheet} (h : ∀ t ∈ s.texts, '\n' ∉ t.toList) : s.block.IsReadable := by
  simp only [texts, List.forall_mem_append] at h
  obtain ⟨⟨hcaption, hheader⟩, hrows⟩ := h
  refine .group ⟨by decide, by decide, by decide⟩ ?_
  simp only [List.forall_mem_append, List.forall_mem_map, List.forall_mem_singleton]
  refine ⟨⟨fun t ht => ?caption, fun texts htexts => ?header⟩, ?body⟩
  case caption => exact .cell ⟨by decide, by decide, by decide⟩ (hcaption t ht)
  case header =>
    refine .group ⟨by decide, by decide, by decide⟩ (List.forall_mem_singleton.mpr ?_)
    refine isReadable_rowBlock (List.forall_mem_map.mpr fun t ht => ?_)
    exact hheader t (List.mem_flatten.mpr ⟨texts, htexts, ht⟩)
  case body =>
    refine .group ⟨by decide, by decide, by decide⟩ (List.forall_mem_map.mpr fun cells hcells => ?_)
    refine isReadable_rowBlock fun c hc => hrows c.2 (List.mem_map_of_mem ?_)
    exact List.mem_flatten.mpr ⟨cells, hcells, hc⟩

end Sheet

/-- Whether a table is made of arguments exactly if none is faulty, the right error is reported
otherwise, and the markup of a table shows the sheet that is asked for and nothing else. -/
structure ShowsGrid (args : Arguments) : Prop where
  fails : ∀ id, (∃ e, table id args = .error e) ↔ Faulty args
  refuses : ∀ id e, table id args = .error e ↔ Refuses args e
  shows : ∀ id f, table id args = .ok f → ∃ s, Asks args s ∧
    ((∀ t ∈ s.texts, '\n' ∉ t.toList) → parts? f.markup.toList = some [s.block.part])

/-- The table call shows the grid its arguments describe, or says why there is none. -/
theorem showsGrid_table (args : Arguments) : ShowsGrid args where
  fails id := by simp only [table_eq_error_iff, exists_refuses_iff]
  refuses _ _ := table_eq_error_iff
  shows id f h := by
    obtain ⟨s, hs, rfl⟩ := table_eq_ok_iff.mp h
    exact ⟨s, hs, fun htexts => Block.parts?_markup (Sheet.isReadable_block htexts)⟩

end PageLoom.Grid
