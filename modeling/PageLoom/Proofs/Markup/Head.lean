import PageLoom.Proofs.Markup.Resources

/-!
# The head of a page

The head of a page has an element for each resource of the body: each once, links before all
else, and otherwise by first declaration (`Hoisted`, `hoisted_hoist`).  How it stands there
follows from its kind (`markup_resourceTag`), and the elements that the page names itself stand
after all of them (`markup_pageOf`).
-/

namespace PageLoom

/-! ## Hoisting -/

/-- Whether a resource is linked to. -/
def isLink (resource : String) : Bool := (ResourceKind.of resource).isLink

/-- A list of resources for a head: each that is declared once, links first, and otherwise by
first declaration. -/
structure Hoisted (declared rs : List String) : Prop where
  distinct : rs.Nodup
  complete : ∀ r, r ∈ rs ↔ r ∈ declared
  ordered : rs.Pairwise fun r r' => isLink r = true ∧ isLink r' = false ∨
    isLink r = isLink r' ∧ declared.idxOf r < declared.idxOf r'

theorem mem_firsts {r : String} {rs : List String} : r ∈ firsts rs ↔ r ∈ rs := by
  induction rs with
  | nil => rfl
  | cons s rs ih =>
      rw [firsts, List.mem_cons, List.mem_cons, List.mem_filter, ih, bne_iff_ne]
      by_cases hr : r = s <;> simp [hr]

/-- The first occurrences stand in the order of the list. -/
theorem pairwise_firsts (rs : List String) :
    (firsts rs).Pairwise fun r r' => rs.idxOf r < rs.idxOf r' := by
  induction rs with
  | nil => exact .nil
  | cons s rs ih =>
      have hother : ∀ r ∈ (firsts rs).filter (· != s), s ≠ r := fun r hr =>
        (bne_iff_ne.mp (List.mem_filter.mp hr).2).symm
      refine .cons (fun r hr => ?_) ?_
      · rw [List.idxOf_cons_self, List.idxOf_cons_ne _ (hother r hr)]
        exact Nat.succ_pos _
      · refine (ih.filter _).imp_of_mem fun {r r'} hr hr' hlt => ?_
        rw [List.idxOf_cons_ne _ (hother r hr), List.idxOf_cons_ne _ (hother r' hr')]
        exact Nat.succ_lt_succ hlt

/-- No resource is declared twice. -/
theorem nodup_firsts (rs : List String) : (firsts rs).Nodup :=
  (pairwise_firsts rs).imp fun hlt heq => by
    rw [heq] at hlt
    exact Nat.lt_irrefl _ hlt

/-- The resources in the head are those that were declared, each once, in the stable order of their
kinds. -/
theorem hoisted_hoist (declared : List String) : Hoisted declared (hoist declared) := by
  have part : ∀ p : String → Bool, ((firsts declared).filter p).Pairwise
      fun r r' => declared.idxOf r < declared.idxOf r' := fun p =>
    (pairwise_firsts declared).filter p
  constructor
  case distinct =>
    refine List.nodup_append.mpr ⟨(nodup_firsts _).filter _, (nodup_firsts _).filter _, ?_⟩
    rintro r hr r' hr' rfl
    have h := (List.mem_filter.mp hr).2
    have h' := (List.mem_filter.mp hr').2
    rw [h] at h'
    cases h'
  case complete =>
    intro r
    rw [hoist, List.mem_append, List.mem_filter, List.mem_filter, mem_firsts]
    cases (ResourceKind.of r).isLink <;> simp
  case ordered =>
    refine List.pairwise_append.mpr ⟨?_, ?_, ?_⟩
    · refine (part _).imp_of_mem fun {r r'} hr hr' hlt => .inr ⟨?_, hlt⟩
      exact (List.mem_filter.mp hr).2.trans (List.mem_filter.mp hr').2.symm
    · refine (part _).imp_of_mem fun {r r'} hr hr' hlt => .inr ⟨?_, hlt⟩
      have h := (List.mem_filter.mp hr).2
      have h' := (List.mem_filter.mp hr').2
      rw [Bool.not_eq_true'] at h h'
      exact h.trans h'.symm
    · intro r hr r' hr'
      have h' := (List.mem_filter.mp hr').2
      rw [Bool.not_eq_true'] at h'
      exact .inl ⟨(List.mem_filter.mp hr).2, h'⟩

/-! ## Elements -/

/-- How a resource stands in a head. -/
def headElement (resource : String) : String :=
  match ResourceKind.of resource with
  | .stylesheet => "<link rel=\"stylesheet\" href=\"" ++ escape resource ++ "\"/>"
  | .script => "<script src=\"" ++ escape resource ++ "\" defer></script>"
  | .passthrough => resource

theorem markup_resourceTag (resource : String) :
    (resourceTag resource).markup = headElement resource := by
  have hempty : ResourceKind.of "" = .passthrough := by decide
  have hne : ResourceKind.of resource ≠ .passthrough → resource.isEmpty = false := by
    intro h
    rw [← Bool.not_eq_true, String.isEmpty_iff]
    rintro rfl
    exact h hempty
  have hrel : escape "stylesheet" = "stylesheet" := by decide +kernel
  rw [resourceTag, headElement]
  cases hkind : ResourceKind.of resource with
  | stylesheet =>
      have hfull := hne (by rw [hkind]; decide)
      simp [Tag.stylesheet, Tag.markup, openTag, writeAttr, hfull, hrel, ← String.toList_inj]
  | script =>
      have hfull := hne (by rw [hkind]; decide)
      simp [Tag.script, Tag.markup, openTag, writeAttr, hfull, ← String.toList_inj]
  | passthrough => rfl

/-! ## Pages -/

/-- The inside of a head: the resources, and then other elements. -/
def headLines (rs : List String) (elements : List Fragment) : String :=
  String.join (rs.map fun r => indent (headElement r)) ++
    String.join (elements.map fun f => indent f.markup)

/-- A page with a head and a body. -/
def pageText (language head body : String) : String :=
  "<!DOCTYPE html>\n" ++ openTag "html" [("lang", language)] ++ ">\n<head>\n" ++ head ++
    "</head>\n" ++ body ++ "\n</html>\n"

/-- Joining the head line by line gives the lines of the resources first and those of the other
elements after them. -/
theorem join_headLines (rs : List String) (elements : List Fragment) :
    String.join (((rs.map fun r => (resourceTag r).fragment) ++ elements).map
      fun f => indent f.markup) = headLines rs elements := by
  have hresources : (rs.map fun r => (resourceTag r).fragment).map (fun f => indent f.markup) =
      rs.map fun r => indent (headElement r) := by
    rw [List.map_map]
    exact List.map_congr_left fun r _ => congrArg indent (markup_resourceTag r)
  rw [List.map_append, hresources, String.join_append]
  rfl

/-- A page is a head with the resources of its body in order and the given elements behind them,
then the body. -/
theorem markup_pageOf (body : Fragment) (head : List Fragment) (language : String) :
    (pageOf body head language).markup =
      pageText language (headLines (hoist body.resources) head) body.markup := by
  have hhead : openTag "head" [] = "<head" := by decide +kernel
  have around : ∀ start lines body : String,
      "<!DOCTYPE html>\n" ++ (start ++ ">") ++ "\n" ++
          ("<head" ++ ">\n" ++ lines ++ "</" ++ "head" ++ ">") ++ "\n" ++ body ++ "\n</html>\n" =
        "<!DOCTYPE html>\n" ++ start ++ ">\n<head>\n" ++ lines ++ "</head>\n" ++ body ++
          "\n</html>\n" := fun start lines body => by simp [← String.toList_inj]
  calc (pageOf body head language).markup = "<!DOCTYPE html>\n" ++
          (openTag "html" [("lang", language)] ++ ">") ++ "\n" ++
          (openTag "head" [] ++ ">\n" ++
            String.join ((((hoist body.resources).map fun r => (resourceTag r).fragment) ++
              head).map fun f => indent f.markup) ++ "</" ++ "head" ++ ">") ++ "\n" ++
          body.markup ++ "\n</html>\n" := rfl
    _ = _ := by
      rw [join_headLines, hhead]
      exact around _ _ _

/-! ## Trees as bodies -/

/-- The resources that are declared in a tree arrive in the head of its page. -/
structure Node.Arrives (n : Node) : Prop where
  /-- A rendered tree has the resources that are declared in it. -/
  rendered : ∀ fresh, n.IsBody fresh →
    ∃ f, n.render fresh = .ok f ∧ f.resources = n.declared fresh
  /-- The head of its page has each of them once, and then the elements of the page. -/
  linked : ∀ fresh head language elements, n.IsBody (fresh.below 0) →
    Node.renderAll fresh 1 head = .ok elements →
      ∃ body page rs, n.render (fresh.below 0) = .ok body ∧
        (Node.page n head language).render fresh = .ok page ∧
        Hoisted (n.declared (fresh.below 0)) rs ∧
        page.markup = pageText language (headLines rs elements) body.markup

/-- Every resource declared anywhere in a node arrives in the head of its page. -/
theorem resources_arrive (n : Node) : n.Arrives := by
  constructor
  case rendered => exact fun fresh h => n.exists_render fresh h
  case linked =>
    intro fresh head language elements hbody hhead
    obtain ⟨body, hrender, hresources⟩ := n.exists_render _ hbody
    refine ⟨body, pageOf body elements language, hoist body.resources, hrender, ?_, ?_, ?_⟩
    · rw [Node.render, hrender, hhead]
    · rw [← hresources]
      exact hoisted_hoist _
    · exact markup_pageOf body elements language

/-- A call in an article below a sheet, whose script is named again above both. -/
theorem resources_arrive_gallery : ∃ n fresh,
    n.declared (Fresh.below fresh 0) = ["a.css", "<meta/>", "w.js", "b.css", "w.js"] ∧
    n.IsBody (fresh.below 0) ∧ Node.renderAll fresh 1 [] = .ok [] ∧
    ∃ body page rs, n.render (fresh.below 0) = .ok body ∧
      body.resources = ["a.css", "<meta/>", "w.js", "b.css", "w.js"] ∧
      (Node.page n [] "en").render fresh = .ok page ∧
      Hoisted ["a.css", "<meta/>", "w.js", "b.css", "w.js"] rs ∧
      page.markup = pageText "en" (headLines rs []) body.markup := by
  let a : Article :=
    { template := "%$w()$%", context := .empty, resources := ["b.css"],
      functions := .register .empty "w" fun _ _ => .ok ⟨"<hr/>", ["<meta/>", "w.js"]⟩ }
  let n : Node := .nested "body" []
    [.nested "main" [] [.tag { name := "p", resources := ["a.css"] }, .article a] [],
      .fragment ⟨"", ["w.js"]⟩] []
  have hdeclared : n.declared ((Fresh.ofSeed 7).below 0) =
      ["a.css", "<meta/>", "w.js", "b.css", "w.js"] := by decide +kernel
  have harticle : ∃ f, a.render ((((Fresh.ofSeed 7).below 0).below 0).below 1) = .ok f := by
    have hok : (a.render ((((Fresh.ofSeed 7).below 0).below 0).below 1)).toBool = true := by
      decide +kernel
    cases hrender : a.render ((((Fresh.ofSeed 7).below 0).below 0).below 1) with
    | ok f => exact ⟨f, rfl⟩
    | error errors =>
        rw [hrender] at hok
        cases hok
  have hbody : n.IsBody ((Fresh.ofSeed 7).below 0) := by
    intro p hp
    have hnodes : p ∈ _ :: _ :: _ :: _ :: [_] := hp
    simp only [List.mem_cons, List.not_mem_nil, or_false] at hnodes
    rcases hnodes with rfl | rfl | rfl | rfl | rfl
    · trivial
    · exact harticle
    · trivial
    · trivial
    · trivial
  obtain ⟨body, page, rs, hrender, hpage, hrs, hmarkup⟩ :=
    (resources_arrive n).linked (Fresh.ofSeed 7) [] "en" [] hbody rfl
  obtain ⟨f, hf, hresources⟩ := (resources_arrive n).rendered _ hbody
  cases hf.symm.trans hrender
  rw [hdeclared] at hrs hresources
  exact ⟨n, Fresh.ofSeed 7, hdeclared, hbody, rfl, body, page, rs, hrender, hresources, hpage, hrs,
    hmarkup⟩

end PageLoom
