import PageLoom.Proofs.Markup.Head
import PageLoom.Proofs.Span.Scan
import PageLoom.Proofs.Tree.WellFormed
import PageLoom.Tree.Render

/-!
# Pages of articles

A page puts an article into a body, below a head that never fails.  So it renders if its article
does, as the text that `articleText` says (`markup_articlePage`), and the article does if none of
its calls fail (`Article.render_of_errors`).  Otherwise the page fails with all of them
(`render_articlePage_of_errors`, `Tree.render_pageNode_of_failures`).
-/

namespace PageLoom

/-! ## Articles -/

theorem renderAll_tags (fresh : Fresh) (place : Nat) (tags : List Tag) :
    Node.renderAll fresh place (tags.map .tag) = .ok (tags.map Tag.fragment) := by
  induction tags generalizing place with
  | nil => rfl
  | cons tag tags ih => rw [List.map_cons, Node.renderAll, Node.render, ih, List.map_cons]

/-- A page renders if its article does, and fails with the errors of its article. -/
theorem render_articlePage (a : Article) (title language : String) (head : List Tag)
    (fresh : Fresh) : (articlePage a title language head).render fresh =
      (a.render ((fresh.below 0).below 0)).map fun f =>
        pageOf (nest "body" [] [f] [])
          (([Tag.metadata [("charset", "utf-8")], Tag.title title] ++ head).map Tag.fragment)
          language := by
  rw [articlePage, Node.render, Node.render, Node.renderAll, Node.render]
  cases a.render ((fresh.below 0).below 0) with
  | error errors => rfl
  | ok f =>
      dsimp only [Node.renderAll]
      rw [renderAll_tags]
      rfl

/-- The text of the page of an article.  The head has what the article needs, the character set, the
title, and then other elements; the body has the article. -/
def articleText (title language : String) (head : List Tag) (article : Fragment) : String :=
  pageText language
    (headLines (hoist article.resources) [] ++ "  <meta charset=\"utf-8\"/>\n" ++
      indent ("<title>" ++ escape title ++ "</title>") ++
      String.join (head.map fun tag => indent tag.markup))
    ("<body>\n" ++ indent article.markup ++ "</body>")

theorem markup_title (title : String) :
    (Tag.title title).markup = "<title>" ++ escape title ++ "</title>" := by
  have hstart : openTag "title" [] ++ ">" = "<title>" := by decide +kernel
  have hmarkup : (Tag.title title).markup =
      openTag "title" [] ++ ">" ++ escape title ++ "</" ++ "title" ++ ">" := rfl
  rw [hmarkup, hstart, String.append_assoc, String.append_assoc]
  rfl

theorem markup_body (f : Fragment) :
    (nest "body" [] [f] []).markup = "<body>\n" ++ indent f.markup ++ "</body>" := by
  have hstart : openTag "body" [] ++ ">\n" = "<body>\n" := by decide +kernel
  have hmarkup : (nest "body" [] [f] []).markup =
      openTag "body" [] ++ ">\n" ++ String.join [indent f.markup] ++ "</" ++ "body" ++ ">" := rfl
  rw [hmarkup, hstart, String.append_assoc, String.append_assoc]
  simp [String.join]

/-- A page has the text of its article around what the article renders to. -/
theorem markup_articlePage (a : Article) (title language : String) (head : List Tag)
    (fresh : Fresh) : ((articlePage a title language head).render fresh).map Fragment.markup =
      (a.render ((fresh.below 0).below 0)).map (articleText title language head) := by
  rw [render_articlePage]
  cases a.render ((fresh.below 0).below 0) with
  | error errors => rfl
  | ok f =>
      have hcharset : indent (Tag.metadata [("charset", "utf-8")]).markup =
          "  <meta charset=\"utf-8\"/>\n" := by decide +kernel
      have hresources : (nest "body" [] [f] []).resources = f.resources := by simp [nest]
      refine congrArg Except.ok ?_
      rw [markup_pageOf, markup_body, hresources, articleText, ← markup_title, ← hcharset]
      simp [headLines, Tag.fragment, Function.comp_def, String.append_assoc]

/-- An article fails with the errors of all its calls that fail. -/
theorem Article.render_of_errors (a : Article) (fresh : Fresh) {errors : List SpanError}
    (h : (process a.functions a.context a.markers fresh a.template).errors = errors) :
    (errors = [] → ∃ f, a.render fresh = .ok f) ∧
      (errors ≠ [] → a.render fresh = .error errors) := by
  subst h
  rw [render, expand]
  constructor
  · intro hnone
    rw [(Processed.result_eq_ok_iff _).mpr hnone]
    exact ⟨_, rfl⟩
  · intro hsome
    rw [Processed.result_eq_error hsome]

/-- So does its page, which adds nothing that fails. -/
theorem render_articlePage_of_errors (a : Article) (title language : String) (head : List Tag)
    (fresh : Fresh) {errors : List SpanError}
    (h : (process a.functions a.context a.markers ((fresh.below 0).below 0) a.template).errors =
      errors) :
    (errors = [] → ∃ f, (articlePage a title language head).render fresh = .ok f) ∧
      (errors ≠ [] → (articlePage a title language head).render fresh = .error errors) := by
  obtain ⟨hok, herror⟩ := a.render_of_errors _ h
  rw [render_articlePage]
  constructor
  · intro hnone
    obtain ⟨f, hf⟩ := hok hnone
    exact ⟨_, congrArg (Except.map _) hf⟩
  · intro hsome
    exact congrArg (Except.map _) (herror hsome)

namespace Tree

/-- A page of a tree has its own title, and the language and the head of all pages. -/
theorem markup_pageNode (t : Tree) (o : RenderOptions) (id : Nat) (p : Page) (fresh : Fresh) :
    ((t.pageNode o id p).render fresh).map Fragment.markup =
      ((t.article o id p).render ((fresh.below 0).below 0)).map
        (articleText (p.fullTitle o.siteTitle) o.language o.head) :=
  markup_articlePage _ _ _ _ fresh

/-- What a page renders to is the text around what its article renders to. -/
theorem exists_article_of_render {t : Tree} {o : RenderOptions} {id : Nat} {p : Page}
    {fresh : Fresh} {f : Fragment} (h : (t.pageNode o id p).render fresh = .ok f) :
    ∃ article, (t.article o id p).render ((fresh.below 0).below 0) = .ok article ∧
      f.markup = articleText (p.fullTitle o.siteTitle) o.language o.head article := by
  have hmarkup := markup_pageNode t o id p fresh
  rw [h] at hmarkup
  cases harticle : (t.article o id p).render ((fresh.below 0).below 0) with
  | error errors =>
      rw [harticle] at hmarkup
      cases hmarkup
  | ok article =>
      rw [harticle] at hmarkup
      exact ⟨article, rfl, Except.ok.inj hmarkup⟩

/-! ## The calls of a page -/

/-- The failures of the calls of a page, in the order of their spans. -/
def failures (t : Tree) (o : RenderOptions) (fresh : Fresh) (id : Nat) : List SpanError :=
  match t.item? id with
  | some (.page p) =>
      failuresIn (t.article o id p).functions p.context o.markers
        (((fresh.below id).below 0).below 0) p.template
  | _ => []

/-- A page renders if none of its calls fail, and otherwise fails with all that do. -/
theorem render_pageNode_of_failures {t : Tree} {id : Nat} {p : Page}
    (hp : t.item? id = some (.page p)) (o : RenderOptions) (fresh : Fresh) :
    (t.failures o fresh id = [] → ∃ f, (t.pageNode o id p).render (fresh.below id) = .ok f) ∧
      (t.failures o fresh id ≠ [] →
        (t.pageNode o id p).render (fresh.below id) = .error (t.failures o fresh id)) := by
  have herrors : (process (t.article o id p).functions p.context o.markers
      (((fresh.below id).below 0).below 0) p.template).errors = t.failures o fresh id := by
    rw [errors_process_eq_failuresIn, failures, hp]
  exact render_articlePage_of_errors (t.article o id p) _ _ _ _ herrors

theorem failures_eq_nil_iff {t : Tree} {id : Nat} {p : Page} (hp : t.item? id = some (.page p))
    (o : RenderOptions) (fresh : Fresh) : t.failures o fresh id = [] ↔
      ∃ f, (t.pageNode o id p).render (fresh.below id) = .ok f := by
  obtain ⟨hok, herror⟩ := render_pageNode_of_failures hp o fresh
  refine ⟨hok, fun ⟨f, hf⟩ => ?_⟩
  by_contra hsome
  cases hf.symm.trans (herror hsome)

end Tree

end PageLoom
