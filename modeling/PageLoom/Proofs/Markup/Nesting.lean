import PageLoom.Markup.Node
import PageLoom.Proofs.Markup.Indentation

/-!
# Preformatted text in nested elements

A fragment stands among its siblings in an element (`Wrapper`), this element in another one, and so
on (`wrapAll`).  Every element but the innermost indents what is indented already.  So the lines of
the fragment go two spaces deeper with each, and what is preformatted stays as it is, if no element
opens preformatted text before the fragment (`keepsPreformatted`).

Lines are looked at one by one.  So this holds for preformatted text that opens with `<pre` and a
`>` or a blank on the same line, and a `<pre` that ends its line opens nothing
(`not_keepsPreformatted_broken`).
-/

namespace PageLoom

/-! ## Elements around a fragment -/

/-- An element around a fragment, without the fragment. -/
structure Wrapper where
  /-- The name. -/
  name : String
  /-- The attributes. -/
  attrs : Attrs := []
  /-- The fragments before. -/
  before : List Fragment := []
  /-- The fragments after. -/
  after : List Fragment := []
  /-- The resources it needs. -/
  resources : List String := []

namespace Wrapper

/-- The element with the fragment in it. -/
def wrap (w : Wrapper) (child : Fragment) : Fragment :=
  nest w.name w.attrs (w.before ++ child :: w.after) w.resources

/-- The markup before the lines of the fragment. -/
def head (w : Wrapper) : List Char :=
  (openTag w.name w.attrs ++ ">\n" ++ String.join (w.before.map fun f => indent f.markup)).toList

/-- The markup after the lines of the fragment. -/
def tail (w : Wrapper) : List Char :=
  (String.join (w.after.map fun f => indent f.markup) ++ "</" ++ w.name ++ ">").toList

/-- Whether no preformatted text is open before the fragment. -/
structure IsQuiet (opens : List Char → Bool) (w : Wrapper) : Prop where
  plain : '\r' ∉ w.head
  closed : ¬ EndsOpen opens w.head

/-- Wrapping puts a head and a tail around the indented markup. -/
theorem toList_wrap (w : Wrapper) (child : Fragment) :
    (w.wrap child).markup.toList = w.head ++ ((indent child.markup).toList ++ w.tail) := by
  simp [wrap, nest, head, tail, String.join_append, List.append_assoc]

end Wrapper

/-- A fragment in some elements, the outermost first. -/
def wrapAll : List Wrapper → Fragment → Fragment
  | [], child => child
  | w :: ws, child => w.wrap (wrapAll ws child)

/-- The markup before the lines of a fragment in some elements. -/
def heads : List Wrapper → List Char
  | [] => []
  | w :: ws => w.head ++ indentLines false (linesOf (heads ws))

/-- Whether a node is some elements around a node that renders to a fragment.  The siblings may be
any nodes that render. -/
inductive Node.Wraps (child : Fragment) : Fresh → List Wrapper → Node → Prop
  | here {fresh : Fresh} {n : Node} : n.render fresh = .ok child → Wraps child fresh [] n
  | nested {fresh : Fresh} {ws : List Wrapper} {n : Node} {before after : List Node} {w : Wrapper} :
      Node.renderAll fresh 0 before = .ok w.before →
      Wraps child (fresh.below before.length) ws n →
      Node.renderAll fresh (before.length + 1) after = .ok w.after →
      Wraps child fresh (w :: ws) (.nested w.name w.attrs (before ++ n :: after) w.resources)

theorem renderAll_append {fresh : Fresh} {place : Nat} {ns ms : List Node} {fs gs : List Fragment}
    (hns : Node.renderAll fresh place ns = .ok fs)
    (hms : Node.renderAll fresh (place + ns.length) ms = .ok gs) :
    Node.renderAll fresh place (ns ++ ms) = .ok (fs ++ gs) := by
  induction ns generalizing place fs with
  | nil =>
      rw [Node.renderAll] at hns
      cases hns
      exact hms
  | cons n ns ih =>
      rw [Node.renderAll] at hns
      split at hns
      next => cases hns
      next f hf =>
        split at hns
        next => cases hns
        next fs hfs =>
          cases hns
          rw [List.length_cons, Nat.add_comm ns.length, ← Nat.add_assoc] at hms
          rw [List.cons_append, Node.renderAll, hf, ih hfs hms]
          rfl

/-- Nodes around nodes render to elements around fragments. -/
theorem Node.Wraps.render {child : Fragment} {fresh : Fresh} {ws : List Wrapper} {n : Node}
    (h : n.Wraps child fresh ws) : n.render fresh = .ok (wrapAll ws child) := by
  induction h with
  | here hn => exact hn
  | @nested fresh ws n before after w hbefore hn hafter ih =>
      have hrest : Node.renderAll fresh (0 + before.length) (n :: after) =
          .ok (wrapAll ws child :: w.after) := by
        rw [Nat.zero_add, Node.renderAll, ih, hafter]
      rw [Node.render, renderAll_append hbefore hrest]
      rfl

/-! ## Whole lines before the fragment -/

theorem endsLine_indentLines (inPre : Bool) (ls : List (List Char)) :
    EndsLine (indentLines inPre ls) := by
  induction ls generalizing inPre with
  | nil => exact EndsLine.nil
  | cons l ls ih => exact endsLine_line _ (ih _)

/-- Indented markup ends with a line break, however many fragments are joined. -/
theorem endsLine_join_indent (fs : List Fragment) :
    EndsLine (String.join (fs.map fun f => indent f.markup)).toList := by
  induction fs with
  | nil => exact EndsLine.nil
  | cons f fs ih =>
      rw [List.map_cons, String.join_cons, String.toList_append, indent, String.toList_ofList]
      exact (endsLine_indentLines false _).append ih

theorem Wrapper.endsLine_head (w : Wrapper) : EndsLine w.head := by
  rw [Wrapper.head, String.toList_append, String.toList_append]
  refine EndsLine.append ?_ (endsLine_join_indent w.before)
  have hend : (">\n" : String).toList = ['>', '\n'] := rfl
  rw [hend, List.append_cons]
  exact endsLine_line _ EndsLine.nil

/-- Whether lines leave no preformatted text open. -/
structure QuietLines (ls : List (List Char)) : Prop where
  plain : AllPlain ls
  closed : ¬ EndsOpen opensOnLine (unlines ls)

namespace QuietLines

variable {ls ms : List (List Char)}

theorem nil : QuietLines [] := by
  refine ⟨by simp [AllPlain], ?_⟩
  decide

theorem append (hls : QuietLines ls) (hms : QuietLines ms) : QuietLines (ls ++ ms) := by
  refine ⟨List.forall_mem_append.mpr ⟨hls.plain, hms.plain⟩, ?_⟩
  rw [unlines_append, ← lastMark?_eq_some_true_iff,
    lastMark?_unlines_append fun l hl => (hls.plain l hl).1, Option.or_eq_some_iff]
  rintro (hmark | ⟨-, hmark⟩)
  · exact hms.closed (lastMark?_eq_some_true_iff.mp hmark)
  · exact hls.closed (lastMark?_eq_some_true_iff.mp hmark)

theorem deeper (h : QuietLines ls) (spaces : Nat) (before : List Char) :
    QuietLines (deeper opensOnLine spaces before ls) := by
  refine ⟨allPlain_deeper h.plain spaces, ?_⟩
  rw [← lastMark?_eq_some_true_iff, lastMark?_unlines_deeper h.plain, lastMark?_eq_some_true_iff]
  exact h.closed

end QuietLines

theorem Wrapper.IsQuiet.exists_lines {w : Wrapper} (h : w.IsQuiet opensOnLine) :
    ∃ ls, w.head = unlines ls ∧ QuietLines ls := by
  obtain ⟨ls, hls, hplain⟩ := w.endsLine_head.exists_allPlain h.plain
  refine ⟨ls, hls, hplain, ?_⟩
  rw [← hls]
  exact h.closed

theorem exists_lines_heads {ws : List Wrapper} (h : ∀ w ∈ ws, w.IsQuiet opensOnLine) :
    ∃ ls, heads ws = unlines ls ∧ QuietLines ls := by
  induction ws with
  | nil => exact ⟨[], rfl, QuietLines.nil⟩
  | cons w ws ih =>
      obtain ⟨hw, hws⟩ := List.forall_mem_cons.mp h
      obtain ⟨hs, hhead, hquiet⟩ := hw.exists_lines
      obtain ⟨ls, hheads, hlines⟩ := ih hws
      refine ⟨hs ++ deeper opensOnLine 2 [] ls, ?_, hquiet.append (hlines.deeper 2 [])⟩
      rw [heads, hhead, hheads, linesOf_unlines hlines.plain, indentLines_of_allPlain hlines.plain,
        unlines_append]

/-! ## Every level -/

/-- After quiet lines, lines are indented as they are alone. -/
theorem indentLines_append_deeper {hs lines : List (List Char)} (hquiet : QuietLines hs)
    (hlines : AllPlain lines) (spaces : Nat) (rest : List (List Char)) :
    ∃ back, indentLines false (hs ++ (deeper opensOnLine spaces [] lines ++ rest)) =
      indentLines false hs ++ (unlines (deeper opensOnLine (spaces + 2) [] lines) ++ back) := by
  have hstate := foldl_lastPreMark? (fun l hl => (hquiet.plain l hl).1) false
  rw [lastMark?_getD_of_not_endsOpen hquiet.closed] at hstate
  rw [indentLines_append, hstate, indentLines_append, indentLines_deeper_nil spaces hlines]
  exact ⟨_, rfl⟩

/-- A fragment in quiet elements, as it stands in another one. -/
theorem indent_wrapAll {child : Fragment} (hchild : '\r' ∉ child.markup.toList)
    {ws : List Wrapper} (h : ∀ w ∈ ws, w.IsQuiet opensOnLine) :
    ∃ back, (indent (wrapAll ws child).markup).toList =
      indentLines false (linesOf (heads ws)) ++
        (unlines (deeper opensOnLine (2 * (ws.length + 1)) [] (linesOf child.markup.toList)) ++
          back) := by
  induction ws with
  | nil =>
      refine ⟨[], ?_⟩
      rw [List.append_nil]
      exact toList_indent hchild
  | cons w ws ih =>
      obtain ⟨back, hinner⟩ := ih (List.forall_mem_cons.mp h).2
      obtain ⟨hs, hheads, hquiet⟩ := exists_lines_heads h
      have hlines := allPlain_linesOf hchild
      have hmarkup : (wrapAll (w :: ws) child).markup.toList = unlines hs ++
          (unlines (deeper opensOnLine (2 * (ws.length + 1)) [] (linesOf child.markup.toList)) ++
            (back ++ w.tail)) := by
        rw [← hheads, heads, wrapAll, Wrapper.toList_wrap, hinner]
        simp [List.append_assoc]
      rw [indent, String.toList_ofList, hmarkup, hheads, linesOf_unlines hquiet.plain,
        linesOf_unlines_append hquiet.plain, linesOf_unlines_append (allPlain_deeper hlines _)]
      exact indentLines_append_deeper hquiet hlines _ _

/-- A preformatted block of the markup stays whole in any number of elements. -/
theorem infix_wrapAll {block : List Char} {child : Fragment} (hreturn : '\r' ∉ block)
    (hblock : IsBlock opensOnLine block) (h : block <:+: child.markup.toList) (ws : List Wrapper) :
    block <:+: (wrapAll ws child).markup.toList := by
  induction ws with
  | nil => exact h
  | cons w ws ih =>
      obtain ⟨front, rest, hinner⟩ := ih
      rw [List.append_assoc] at hinner
      have hindent := infix_indentLines hreturn hblock false front rest
      rw [hinner] at hindent
      rw [wrapAll, Wrapper.toList_wrap, indent, String.toList_ofList]
      exact hindent.trans ⟨w.head, w.tail, by simp⟩

/-! ## Preformatted text -/

/-- Whether markup keeps its preformatted text in elements: in one, in elements that open none
before it, and, as for blocks, in any elements. -/
structure KeepsPreformatted (opens : List Char → Bool) (child : Fragment) : Prop where
  lines : AreLines (linesOf child.markup.toList) child.markup.toList
  nested : ∀ w : Wrapper, (w.wrap child).markup.toList =
    w.head ++ (unlines (deeper opens 2 [] (linesOf child.markup.toList)) ++ w.tail)
  deeper : ∀ (w : Wrapper) (ws : List Wrapper), (∀ w ∈ ws, w.IsQuiet opens) →
    ∃ back, (wrapAll (w :: ws) child).markup.toList = heads (w :: ws) ++
      (unlines (deeper opens (2 * (ws.length + 1)) [] (linesOf child.markup.toList)) ++ back)
  blocks : ∀ (ws : List Wrapper) (block : List Char), IsBlock opens block →
    block <:+: child.markup.toList → block <:+: (wrapAll ws child).markup.toList
  rendered : ∀ (fresh : Fresh) (ws : List Wrapper) (n : Node), n.Wraps child fresh ws →
    n.render fresh = .ok (wrapAll ws child)

/-- Preformatted text that opens as far as its line tells is kept in any elements. -/
theorem keepsPreformatted_opensOnLine {child : Fragment} (h : '\r' ∉ child.markup.toList) :
    KeepsPreformatted opensOnLine child := by
  constructor
  case lines => exact areLines_linesOf h
  case nested =>
    intro w
    rw [Wrapper.toList_wrap, toList_indent h]
  case deeper =>
    intro w ws hws
    obtain ⟨back, hinner⟩ := indent_wrapAll h hws
    refine ⟨back ++ w.tail, ?_⟩
    rw [wrapAll, Wrapper.toList_wrap, heads, hinner]
    simp [List.append_assoc]
  case blocks =>
    intro ws block hblock hinside
    exact infix_wrapAll (fun hmem => h (hinside.subset hmem)) hblock hinside ws
  case rendered =>
    intro fresh ws n hn
    exact hn.render

/-- Looking at one line alone misses only a tag that is broken off at the end of its line. -/
theorem KeepsPreformatted.opensPre {child : Fragment} (h : KeepsPreformatted opensOnLine child)
    (hbroken : ¬ preOpen ++ ['\n'] <:+: child.markup.toList) :
    KeepsPreformatted PageLoom.opensPre child := by
  have hopen : ∀ {cs}, cs <:+: child.markup.toList →
      (EndsOpen opensOnLine cs ↔ EndsOpen PageLoom.opensPre cs) := by
    intro cs hcs
    exact (endsOpen_opensPre_iff fun hmark => hbroken (hmark.trans hcs)).symm
  have hdeeper : ∀ spaces,
      PageLoom.deeper opensOnLine spaces [] (linesOf child.markup.toList) =
        PageLoom.deeper PageLoom.opensPre spaces [] (linesOf child.markup.toList) := by
    intro spaces
    refine deeper_congr spaces fun ls line ms hls => ?_
    have hlines := h.lines
    rw [hls] at hlines
    exact hopen hlines.isPrefix.isInfix
  constructor
  case lines => exact h.lines
  case nested =>
    intro w
    rw [← hdeeper]
    exact h.nested w
  case deeper =>
    intro w ws hws
    rw [← hdeeper]
    refine h.deeper w ws fun w hw => ⟨(hws w hw).plain, fun hhead => ?_⟩
    exact (hws w hw).closed hhead.opensPre
  case blocks =>
    intro ws block hblock hinside
    refine h.blocks ws block (fun p q hpq => (hopen ?_).mpr (hblock p q hpq)) hinside
    have hprefix : p ++ ['\n'] <+: block := by
      rw [hpq]
      exact ⟨q, by simp⟩
    exact hprefix.isInfix.trans hinside
  case rendered => exact h.rendered

/-- Markup without carriage returns keeps its preformatted text in elements, if this opens with
`<pre` and a `>` or a blank on the same line. -/
theorem keepsPreformatted (child : Fragment) (h : '\r' ∉ child.markup.toList) :
    KeepsPreformatted opensOnLine child ∧
      (¬ preOpen ++ ['\n'] <:+: child.markup.toList → KeepsPreformatted opensPre child) := by
  have hline := keepsPreformatted_opensOnLine h
  exact ⟨hline, hline.opensPre⟩

/-- Code and a paragraph. -/
def codeAndParagraph : Fragment := ⟨"<pre><code>a\n  b\n</code></pre>\n<p>c</p>", []⟩

theorem keepsPreformatted_codeAndParagraph :
    ('\r' ∉ codeAndParagraph.markup.toList ∧
      ¬ preOpen ++ ['\n'] <:+: codeAndParagraph.markup.toList) ∧
    KeepsPreformatted opensPre codeAndParagraph ∧
    (∀ ws, ("<pre><code>a\n  b\n".toList ++ "</code></pre>".toList) <:+:
      (wrapAll ws codeAndParagraph).markup.toList) ∧
    (wrapAll [⟨"div", [], [], [], []⟩, ⟨"p", [], [], [], []⟩] codeAndParagraph).markup =
      "<div>\n  <p>\n    <pre><code>a\n  b\n</code></pre>\n    <p>c</p>\n  </p>\n</div>" := by
  have hplain : '\r' ∉ codeAndParagraph.markup.toList := by decide +kernel
  have hwhole : ¬ preOpen ++ ['\n'] <:+: codeAndParagraph.markup.toList := by decide +kernel
  have hkeeps := (keepsPreformatted codeAndParagraph hplain).2 hwhole
  refine ⟨⟨hplain, hwhole⟩, hkeeps, fun ws => ?_, by decide +kernel⟩
  refine hkeeps.blocks ws _ (isBlock_append ?_ ?_ ?_) ?_
  · decide
  · decide +kernel
  · decide
  · decide +kernel

/-- A `<pre` at the end of its line opens nothing, and the lines after it are indented. -/
theorem not_keepsPreformatted_broken :
    '\r' ∉ "<pre\nclass=\"x\">\n  code\n</pre>".toList ∧
    ¬ KeepsPreformatted opensPre ⟨"<pre\nclass=\"x\">\n  code\n</pre>", []⟩ := by
  refine ⟨by decide +kernel, fun h => ?_⟩
  have hnested := h.nested ⟨"div", [], [], [], []⟩
  revert hnested
  decide +kernel

end PageLoom
