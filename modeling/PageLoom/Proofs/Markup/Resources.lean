import PageLoom.Proofs.Span.Lossless
import PageLoom.Markup.Node

/-!
# The resources of a tree

The nodes of a tree in `postOrder` stand with the supplies of identifiers that they are rendered
with, children before their parent.  What is `declared` in a tree is what each of them needs of
its own, in this order; an article needs what its calls need, in the order of their spans, and
then what it names itself.

A tree without pages whose articles are all rendered is rendered, and its fragment needs what is
declared in the tree, neither more nor less and in the same order (`Node.exists_render`).
-/

namespace PageLoom

/-! ## Articles -/

/-- What the calls of pieces make.  `place` is the place of the first piece. -/
def callsFrom (a : Article) (fresh : Fresh) (place : Nat) : List Piece →
    List (Except CallError Fragment)
  | [] => []
  | .literal _ :: ps => callsFrom a fresh (place + 1) ps
  | .span body :: ps =>
      dispatch a.functions a.context (fresh.below place).here (String.ofList (trim body)) ::
        callsFrom a fresh (place + 1) ps

/-- What the calls of an article make, in the order of their spans. -/
def Article.calls (a : Article) (fresh : Fresh) : List (Except CallError Fragment) :=
  callsFrom a fresh 0 (splitSpans a.markers a.template.toList)

/-- The resources that a call needs. -/
def callResources : Except CallError Fragment → List String
  | .ok f => f.resources
  | .error _ => []

/-- The resources that an article needs of its own. -/
def Article.own (a : Article) (fresh : Fresh) : List String :=
  (a.calls fresh).flatMap callResources ++ a.resources

theorem resources_outcomesFrom (a : Article) (fresh : Fresh) (place : Nat) (ps : List Piece) :
    ((outcomesFrom a.functions a.context a.markers fresh place ps).filterMap
      Outcome.segment?).flatMap (fun s => s.result.resources) =
      (callsFrom a fresh place ps).flatMap callResources := by
  induction ps generalizing place with
  | nil => rfl
  | cons p ps ih =>
      have hrest := ih (place + 1)
      cases p with
      | literal text => exact hrest
      | span body =>
          rw [outcomesFrom, Piece.outcome, callsFrom, List.flatMap_cons]
          cases dispatch a.functions a.context (fresh.below place).here
            (String.ofList (trim body)) with
          | error e => exact hrest
          | ok f => exact congrArg (f.resources ++ ·) hrest

theorem Article.resources_of_render {a : Article} {fresh : Fresh} {f : Fragment}
    (h : a.render fresh = .ok f) : f.resources = a.own fresh := by
  rw [render, expand] at h
  cases hresult : (process a.functions a.context a.markers fresh a.template).result with
  | error errors =>
      rw [hresult] at h
      cases h
  | ok p =>
      rw [hresult] at h
      cases h
      have hp : p = process a.functions a.context a.markers fresh a.template := by
        rw [Processed.result] at hresult
        split at hresult
        · cases hresult
          rfl
        · cases hresult
      rw [hp]
      exact congrArg (· ++ a.resources) (resources_outcomesFrom a fresh 0 _)

/-! ## Trees -/

mutual
/-- The nodes of a tree with their supplies, children before their parent. -/
def Node.postOrder (fresh : Fresh) : Node → List (Fresh × Node)
  | .tag t => [(fresh, .tag t)]
  | .nested name attrs children resources =>
      Node.postOrderAll fresh 0 children ++ [(fresh, .nested name attrs children resources)]
  | .fragment f => [(fresh, .fragment f)]
  | .prose p => [(fresh, .prose p)]
  | .article a => [(fresh, .article a)]
  | .page body head language =>
      Node.postOrder (fresh.below 0) body ++ Node.postOrderAll fresh 1 head ++
        [(fresh, .page body head language)]

/-- The nodes of trees with their supplies.  `place` is the place of the first tree. -/
def Node.postOrderAll (fresh : Fresh) (place : Nat) : List Node → List (Fresh × Node)
  | [] => []
  | n :: ns => Node.postOrder (fresh.below place) n ++ Node.postOrderAll fresh (place + 1) ns
end

namespace Node

/-- The resources that a node needs besides those of its children. -/
def own (fresh : Fresh) : Node → List String
  | .tag t => t.resources
  | .nested _ _ _ resources => resources
  | .fragment f => f.resources
  | .prose p => p.resources
  | .article a => a.own fresh
  | .page .. => []

/-- The resources that nodes need of their own, in order. -/
def owned (nodes : List (Fresh × Node)) : List String := nodes.flatMap fun p => p.2.own p.1

/-- The resources that are declared in a tree. -/
def declared (fresh : Fresh) (n : Node) : List String := owned (n.postOrder fresh)

/-- A node is no page, and it is rendered if it is an article. -/
def IsPart (fresh : Fresh) : Node → Prop
  | .article a => ∃ f, a.render fresh = .ok f
  | .page .. => False
  | _ => True

/-- A tree has no page in it, and all its articles are rendered. -/
def IsBody (fresh : Fresh) (n : Node) : Prop := ∀ p ∈ n.postOrder fresh, p.2.IsPart p.1

end Node

mutual
/-- A tree is rendered, with what is declared in it. -/
theorem Node.exists_render (fresh : Fresh) : (n : Node) → n.IsBody fresh →
    ∃ f, n.render fresh = .ok f ∧ f.resources = n.declared fresh
  | .tag t, _ => ⟨t.fragment, rfl, (List.append_nil _).symm⟩
  | .nested name attrs children resources, h => by
      obtain ⟨fs, hrender, hresources⟩ := Node.exists_renderAll fresh 0 children
        fun p hp => h p (List.mem_append_left _ hp)
      refine ⟨nest name attrs fs resources, ?_, ?_⟩
      · rw [Node.render, hrender]
      · rw [Node.declared, Node.postOrder, Node.owned, List.flatMap_append,
          List.flatMap_singleton]
        exact congrArg (· ++ resources) hresources
  | .fragment f, _ => ⟨f, rfl, (List.append_nil _).symm⟩
  | .prose p, _ => ⟨p.render, rfl, (List.append_nil _).symm⟩
  | .article a, h => by
      obtain ⟨f, hrender⟩ : ∃ f, a.render fresh = .ok f := h _ (List.mem_singleton_self _)
      refine ⟨f, hrender, ?_⟩
      rw [Article.resources_of_render hrender]
      exact (List.append_nil _).symm
  | .page body head language, h =>
      (h (fresh, .page body head language)
        (List.mem_append_right _ (List.mem_singleton_self _))).elim

/-- Trees are rendered, with what is declared in them. -/
theorem Node.exists_renderAll (fresh : Fresh) (place : Nat) : (ns : List Node) →
    (∀ p ∈ Node.postOrderAll fresh place ns, p.2.IsPart p.1) →
    ∃ fs, Node.renderAll fresh place ns = .ok fs ∧
      fs.flatMap Fragment.resources = Node.owned (Node.postOrderAll fresh place ns)
  | [], _ => ⟨[], rfl, rfl⟩
  | n :: ns, h => by
      obtain ⟨f, hfirst, hresources⟩ := Node.exists_render (fresh.below place) n
        fun p hp => h p (List.mem_append_left _ hp)
      obtain ⟨fs, hrest, hresources'⟩ := Node.exists_renderAll fresh (place + 1) ns
        fun p hp => h p (List.mem_append_right _ hp)
      refine ⟨f :: fs, ?_, ?_⟩
      · rw [Node.renderAll, hfirst, hrest]
      · rw [Node.postOrderAll, Node.owned, List.flatMap_append, List.flatMap_cons, hresources,
          hresources']
        rfl
end

end PageLoom
