/-!
# Fragments and resources

Everything renders to a fragment: its markup and the resources that the markup
needs, in the order in which they were declared, repetitions included.

A resource is a stylesheet if its path ends with `.css`, a script if it ends with
`.js`, and otherwise markup to be copied into the head as it is.  The path ends
before the first `?` or `#`, and the case of ASCII letters does not matter.
`hoist` prepares resources for a head: each once, stylesheets and scripts first,
and otherwise in the order of their first declaration.
-/

namespace PageLoom

/-- Markup and the resources it needs. -/
structure Fragment where
  /-- The markup. -/
  markup : String
  /-- The resources, as declared. -/
  resources : List String
deriving DecidableEq, Repr, Inhabited

/-- How a resource is put into a head. -/
inductive ResourceKind
  | stylesheet | script | passthrough
deriving DecidableEq, Repr

namespace ResourceKind

/-- The path of a resource, in lower case. -/
def path (resource : String) : List Char :=
  (resource.toList.takeWhile fun c => c != '?' && c != '#').map Char.toLower

/-- The kind of a resource. -/
def of (resource : String) : ResourceKind :=
  if ['.', 'c', 's', 's'].isSuffixOf (path resource) then .stylesheet
  else if ['.', 'j', 's'].isSuffixOf (path resource) then .script
  else .passthrough

/-- Whether a resource is linked to, and not copied. -/
def isLink : ResourceKind → Bool
  | .stylesheet => true
  | .script => true
  | .passthrough => false

end ResourceKind

/-- The first occurrence of each resource. -/
def firsts : List String → List String
  | [] => []
  | r :: rs => r :: (firsts rs).filter (· != r)

/-- Each resource once, links first. -/
def hoist (resources : List String) : List String :=
  let unique := firsts resources
  unique.filter (fun r => (ResourceKind.of r).isLink) ++
    unique.filter fun r => !(ResourceKind.of r).isLink

end PageLoom
