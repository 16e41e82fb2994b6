import PageLoom.Markdown.Html
import PageLoom.Markup.Reference
import PageLoom.Markup.Tag
import PageLoom.Span.Process

/-!
# Render trees

A page is a tree of nodes.  Rendering a node gives a fragment, or the failed calls
of the first node that has any.  The resources of a node's children come before
its own, so every resource that is declared somewhere below the body reaches the
head of the page, once.

An article is Markdown with calls in it.  Its calls are processed first, the
scalars of its context are then put into the text, the text becomes HTML, and
last the results of the calls take the places of their placeholders.  A call that
stands alone in a paragraph takes the place of the paragraph.
-/

namespace PageLoom

/-- Converted Markdown in its element. -/
def markdownBox (html : String) (resources : List String) : Fragment :=
  nest "div" [("class", "markdown")] [(Tag.passthrough html).fragment] resources

/-! ## Prose and articles -/

/-- Markdown with references. -/
structure Prose where
  /-- The text. -/
  template : String
  /-- The values of its references. -/
  vars : NameMap String
  /-- The resources it needs. -/
  resources : List String := []

/-- Prose as a fragment. -/
def Prose.render (p : Prose) : Fragment :=
  markdownBox (Markdown.toHtml (substitute p.vars p.template)) p.resources

/-- Markdown with calls. -/
structure Article where
  /-- The text. -/
  template : String
  /-- The context of its calls. -/
  context : Context
  /-- The functions that it can call. -/
  functions : FunctionTable
  /-- The markers of its calls. -/
  markers : Markers := .standard
  /-- The resources it needs besides those of its calls. -/
  resources : List String := []

/-- Replace every paragraph that holds a placeholder and nothing else by the
placeholder. -/
def unwrapPlaceholders (html : String) (segments : List Segment) : String :=
  segments.foldl (fun html s =>
    let ref := reference s.placeholder
    String.ofList (replaceWord ("<p>" ++ ref ++ "</p>").toList ref.toList html.toList)) html

namespace Article

/-- The markup of an article and the resources of its calls, for a conversion of
Markdown to HTML. -/
def expand (a : Article) (convert : String → String) (fresh : Fresh) :
    Except (List SpanError) Fragment :=
  match (process a.functions a.context a.markers fresh a.template).result with
  | .error errors => .error errors
  | .ok p =>
      let html := unwrapPlaceholders (convert (substitute a.context.scalars p.text)) p.segments
      .ok ⟨substitute p.placeholders html, p.resources⟩

/-- An article as a fragment. -/
def render (a : Article) (fresh : Fresh) : Except (List SpanError) Fragment :=
  match a.expand Markdown.toHtml fresh with
  | .error errors => .error errors
  | .ok f => .ok (markdownBox f.markup (f.resources ++ a.resources))

end Article

/-! ## Pages -/

/-- The element of a resource in a head. -/
def resourceTag (resource : String) : Tag :=
  match ResourceKind.of resource with
  | .stylesheet => .stylesheet resource
  | .script => .script resource
  | .passthrough => .passthrough resource

/-- A page around a body: the head links the resources of the body and then holds
the given elements. -/
def pageOf (body : Fragment) (head : List Fragment) (language : String) : Fragment :=
  let resources := hoist body.resources
  let head := nest "head" [] (resources.map (fun r => (resourceTag r).fragment) ++ head)
  { markup := "<!DOCTYPE html>\n" ++ Tag.start { name := "html", attrs := [("lang", language)] } ++
      "\n" ++ head.markup ++ "\n" ++ body.markup ++ "\n</html>\n"
    resources := resources ++ head.resources }

/-! ## Nodes -/

/-- A node of a render tree. -/
inductive Node
  | tag (t : Tag)
  | nested (name : String) (attrs : Attrs) (children : List Node) (resources : List String)
  | fragment (f : Fragment)
  | prose (p : Prose)
  | article (a : Article)
  | page (body : Node) (head : List Node) (language : String)

/-- The language of a page that names none. -/
def defaultLanguage : String := "en"

mutual
/-- A node as a fragment.  Every child gets a supply of identifiers of its own. -/
def Node.render (fresh : Fresh) : Node → Except (List SpanError) Fragment
  | .tag t => .ok t.fragment
  | .nested name attrs children resources =>
      match Node.renderAll fresh 0 children with
      | .error errors => .error errors
      | .ok fragments => .ok (nest name attrs fragments resources)
  | .fragment f => .ok f
  | .prose p => .ok p.render
  | .article a => a.render fresh
  | .page body head language =>
      match Node.render (fresh.below 0) body with
      | .error errors => .error errors
      | .ok body =>
          match Node.renderAll fresh 1 head with
          | .error errors => .error errors
          | .ok head => .ok (pageOf body head language)

/-- A list of nodes as fragments.  `place` is the place of the first one. -/
def Node.renderAll (fresh : Fresh) (place : Nat) :
    List Node → Except (List SpanError) (List Fragment)
  | [] => .ok []
  | n :: ns =>
      match Node.render (fresh.below place) n with
      | .error errors => .error errors
      | .ok f =>
          match Node.renderAll fresh (place + 1) ns with
          | .error errors => .error errors
          | .ok fs => .ok (f :: fs)
end

end PageLoom
