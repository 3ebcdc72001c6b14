import QmlCodeModel.Proofs.Symbols.Objects
import QmlCodeModel.Proofs.Tree.Objects

/-! What the nodes of scripts visit, and for which of them scopes are opened, in the order of the source. -/
namespace QmlCodeModel

/-- The part that is visited. -/
def Deed.part? : Deed → Option Node
  | .declare _ _ => none
  | .visit part => some part

/-- These nodes lie side by side. -/
def Apart (nodes : List Node) : Prop := nodes.Pairwise fun c d => c.Below d.span.start

/-- These steps visit these nodes, each either as it is or by visiting parts of it in a scope of its own. -/
inductive Covers : List Step → List Node → Prop
  | nil : Covers [] []
  | declare {steps : List Step} {nodes : List Node} (reach : Reach) (d : Declaration)
    (rest : Covers steps nodes) : Covers (.deed (.declare reach d) :: steps) nodes
  | visit {steps : List Step} {nodes : List Node} (n : Node) (rest : Covers steps nodes) :
    Covers (.visit n :: steps) (n :: nodes)
  | opened {steps : List Step} {nodes : List Node} {kind : ScopeKind} {n : Node} {deeds : List Deed}
    (script : n.kind.InScript) (below : ∀ x ∈ deeds.filterMap Deed.part?, x ∈ n.walk)
    (apart : Apart (deeds.filterMap Deed.part?)) (rest : Covers steps nodes) :
    Covers (.scoped kind n.span deeds :: steps) (n :: nodes)

namespace Covers

variable {steps steps' : List Step} {nodes nodes' : List Node}

lemma append (h : Covers steps nodes) (h' : Covers steps' nodes') :
    Covers (steps ++ steps') (nodes ++ nodes') := by
  induction h with
  | nil => exact h'
  | declare reach d rest ih => exact .declare reach d ih
  | visit n rest ih => exact .visit n ih
  | opened script below apart rest ih => exact .opened script below apart ih

lemma deeds (ds : List Deed) : Covers (ds.map Step.deed) (ds.filterMap Deed.part?) := by
  induction ds with
  | nil => exact .nil
  | cons d ds ih =>
    cases d with
    | declare reach d => exact .declare reach d ih
    | visit n => exact .visit n ih

lemma visits (ns : List Node) : Covers (ns.map Step.visit) ns := by
  induction ns with
  | nil => exact .nil
  | cons n ns ih => exact .visit n ih

end Covers

section parts

variable {n body x : Node}

@[simp] lemma parts_names (reach : Reach) (kind : DeclarationKind) (node : Nat) (names : List Ident) :
    (Deed.names reach kind node names).filterMap Deed.part? = [] := by
  simp [Deed.names,Deed.part?]

lemma parts_visits (ns : List Node) : (ns.map Deed.visit).filterMap Deed.part? = ns := by
  rw [List.filterMap_map]
  exact List.filterMap_some

/-- A function visits its defaults and its statements, in this order. -/
lemma parts_inner (node : Nat) (f : FunctionParts Node) :
    ((f.params.flatMap fun p =>
      Deed.names .scope .parameter node p.target.names ++ p.default.toList.map Deed.visit) ++
        f.body.bodyParts.map Deed.visit).filterMap Deed.part? =
      (f.params.flatMap fun p => p.default.toList) ++ f.body.bodyParts := by
  simp only [List.filterMap_append,List.filterMap_flatMap,parts_names,parts_visits,List.nil_append]

/-- A statement with declarations visits what they consist of. -/
lemma parts_variableDeeds (kind : VariableKind) (declarations : List Node) :
    (declarations.flatMap (Node.variableDeeds kind)).filterMap Deed.part? = declarations.flatMap Node.children := by
  rw [List.filterMap_flatMap]
  refine congrArg (declarations.flatMap ·) (funext fun d => ?_)
  cases kind <;> simp only [Node.variableDeeds,List.filterMap_append,parts_names,parts_visits,List.nil_append]

lemma mem_parts_iff {deeds : List Deed} : x ∈ deeds.filterMap Deed.part? ↔ .visit x ∈ deeds := by
  rw [List.mem_filterMap]
  constructor
  · rintro ⟨d | y,hd,⟨⟩⟩
    exact hd
  · intro h
    exact ⟨_,h,rfl⟩

lemma Node.mem_walk_of_mem_bodyParts (h : x ∈ body.bodyParts) : x ∈ body.walk := by
  unfold bodyParts at h
  split at h
  · rename_i statements hk
    refine mem_walk_of_mem_children ?_ x.mem_walk_self
    simpa [children,hk,Kind.children] using h
  · rw [List.mem_singleton.mp h]
    exact body.mem_walk_self

lemma Node.mem_walk_of_mem_blockParts (h : x ∈ body.blockParts) : x ∈ body.walk := by
  unfold blockParts at h
  split at h
  · rename_i statements hk
    refine mem_walk_of_mem_children ?_ x.mem_walk_self
    simpa [children,hk,Kind.children] using h
  · simp at h

lemma apart_bodyParts (h : body.Sound) : Apart body.bodyParts := by
  unfold Node.bodyParts
  split
  · rename_i statements hk
    simpa [Apart,Node.children,hk,Kind.children] using h.apart
  · exact List.pairwise_singleton _ _

lemma apart_blockParts (h : body.Sound) : Apart body.blockParts := by
  unfold Node.blockParts
  split
  · rename_i statements hk
    simpa [Apart,Node.children,hk,Kind.children] using h.apart
  · exact List.Pairwise.nil

/-- What lies below nodes side by side lies side by side. -/
lemma apart_flatMap {α : Type} {rows : List α} {whole : α → Node} {parts : α → List Node}
    (h : Apart (rows.map whole)) (below : ∀ a ∈ rows, ∀ x ∈ parts a, x ∈ (whole a).walk)
    (hsound : ∀ a ∈ rows, (whole a).Sound) (hparts : ∀ a ∈ rows, Apart (parts a)) :
    Apart (rows.flatMap parts) := by
  refine List.pairwise_flatMap.mpr ⟨hparts,?_⟩
  refine (List.pairwise_map.mp h).imp_of_mem fun {a b} ha hb hab x hx y hy => ?_
  exact (hab.of_mem_walk (below a ha x hx)).mono ((hsound b hb).start_le (below b hb y hy))

end parts

namespace Node

variable {n : Node}

/-- The scope of a function holds its defaults and its statements, in this order. -/
lemma apart_functionParts {f : FunctionParts Node} (h : n.Sound) (hn : n.children = f.children) :
    Apart (f.params.flatMap (fun p => p.default.toList) ++ f.body.bodyParts) := by
  have hrow := h.apart
  rw [hn,FunctionParts.children] at hrow
  have hbody : f.body.Sound := h.of_mem_children (by simp [hn,FunctionParts.children])
  obtain ⟨hparams,-,hcross⟩ := List.pairwise_append.mp hrow
  have hsub : (f.params.flatMap fun p => p.default.toList).Sublist (f.params.flatMap FormalParameter.children) :=
    List.Sublist.flatMap_right _ fun p _ => List.sublist_append_right _ _
  refine List.pairwise_append.mpr ⟨hparams.sublist hsub,apart_bodyParts hbody,fun c hc d hd => ?_⟩
  refine (hcross c (hsub.subset hc) f.body (List.mem_singleton_self _)).mono ?_
  exact hbody.start_le (mem_walk_of_mem_bodyParts hd)

lemma covers_functionSteps {f : FunctionParts Node} {isExpression : Bool} (h : n.Sound)
    (hscript : n.kind.InScript) (hn : n.children = f.children) :
    Covers (n.functionSteps f isExpression) [n] := by
  let name := Deed.names (if isExpression then Reach.scope else .function) .function n.id f.name.toList
  let inner := (f.params.flatMap fun p =>
    Deed.names .scope .parameter n.id p.target.names ++ p.default.toList.map Deed.visit) ++
      f.body.bodyParts.map Deed.visit
  have hinner : inner.filterMap Deed.part? = f.params.flatMap (fun p => p.default.toList) ++ f.body.bodyParts :=
    parts_inner n.id f
  have hapart := apart_functionParts h hn
  cases isExpression with
  | true =>
    have hsteps : n.functionSteps f true = [.scoped .function n.span (name ++ inner)] := by
      simp [functionSteps,name,inner]
    have hparts : (name ++ inner).filterMap Deed.part? = inner.filterMap Deed.part? := by
      rw [List.filterMap_append]
      simp [name]
    rw [hsteps]
    refine .opened hscript (fun x hx => ?_) (by rwa [hparts,hinner]) .nil
    have hstep : .scoped .function n.span (name ++ inner) ∈ n.functionSteps f true :=
      hsteps ▸ List.mem_singleton_self _
    exact mem_walk_of_isNear (isNear_of_functionSteps hn hstep (mem_parts_iff.mp hx))
  | false =>
    have hsteps : n.functionSteps f false = name.map .deed ++ [.scoped .function n.span inner] := by
      simp [functionSteps,name,inner]
    rw [hsteps]
    have hnames := Covers.deeds name
    rw [parts_names] at hnames
    refine hnames.append (.opened hscript (fun x hx => ?_) (by rwa [hinner]) .nil)
    have hstep : .scoped .function n.span inner ∈ n.functionSteps f false :=
      hsteps ▸ List.mem_append_right _ (List.mem_singleton_self _)
    exact mem_walk_of_isNear (isNear_of_functionSteps hn hstep (mem_parts_iff.mp hx))

/-- The nodes that a node of a script hands on to lie below it, side by side. -/
theorem exists_covers_scopeSteps (h : n.Sound) (hlayered : n.Layered) :
    ∃ nodes, Covers n.scopeSteps nodes ∧ Apart nodes ∧ ∀ x ∈ nodes, x ∈ n.walk := by
  have hself : ∀ x ∈ [n], x ∈ n.walk := by simp [n.mem_walk_self]
  have hchild : ∀ x ∈ n.children, x ∈ n.walk := fun x hx => mem_walk_of_mem_children hx x.mem_walk_self
  have hsingle : Apart [n] := List.pairwise_singleton _ _
  have hscope (hscript : n.kind.isScript) : Covers [.scoped .block n.span (n.children.map Deed.visit)] [n] :=
    .opened (.inl hscript) (by rwa [parts_visits]) (by rw [parts_visits]; exact h.apart) .nil
  unfold scopeSteps
  split
  · rename_i f hk
    exact ⟨[n],covers_functionSteps h (.inl (by simp [hk,Kind.isScript])) (by simp [children,hk,Kind.children]),
      hsingle,hself⟩
  · rename_i f hk
    exact ⟨[n],covers_functionSteps h (.inl (by simp [hk,Kind.isScript])) (by simp [children,hk,Kind.children]),
      hsingle,hself⟩
  · rename_i c hk
    refine ⟨n.children,?_,h.apart,hchild⟩
    have hcovers := Covers.deeds (Deed.names .scope .className n.id c.name.toList ++ n.children.map Deed.visit)
    rwa [List.filterMap_append,parts_names,parts_visits,List.nil_append] at hcovers
  · rename_i kind declarations hk
    have hdeclarations : n.children = declarations := by simp [children,hk,Kind.children]
    have hcovers := Covers.deeds (declarations.flatMap (variableDeeds kind))
    rw [parts_variableDeeds] at hcovers
    have hsound : ∀ d ∈ declarations, d.Sound := fun d hd => h.of_mem_children (hdeclarations ▸ hd)
    have hrow : Apart (declarations.map fun d => d) := by
      rw [List.map_id',← hdeclarations]
      exact h.apart
    refine ⟨_,hcovers,apart_flatMap hrow (fun d _ x hx => ?_) hsound fun d hd => (hsound d hd).apart,?_⟩
    · exact mem_walk_of_mem_children hx x.mem_walk_self
    · intro x hx
      obtain ⟨d,hd,hx⟩ := List.mem_flatMap.mp hx
      exact mem_walk_of_isNear (.inr ⟨d,hdeclarations ▸ hd,hx⟩)
  · rename_i hk
    exact ⟨[n],hscope (by simp [hk,Kind.isScript]),hsingle,hself⟩
  · rename_i hk
    exact ⟨[n],hscope (by simp [hk,Kind.isScript]),hsingle,hself⟩
  · rename_i hk
    exact ⟨[n],hscope (by simp [hk,Kind.isScript]),hsingle,hself⟩
  · rename_i hk
    exact ⟨[n],hscope (by simp [hk,Kind.isScript]),hsingle,hself⟩
  · rename_i body param handler finalizer hk
    have hchildren : n.children =
        body :: ((param.map BindingTarget.children).getD [] ++ handler.toList ++ finalizer.toList) := by
      simp [children,hk,Kind.children]
    have hsub : (body :: (handler.toList ++ finalizer.toList)).Sublist n.children := by
      rw [hchildren,List.append_assoc]
      exact (List.sublist_append_right _ _).cons_cons body
    refine ⟨_,.visit body (Covers.append ?_ (.visits _)),h.apart.sublist hsub,fun x hx => hchild x (hsub.subset hx)⟩
    cases handler with
    | none => exact .nil
    | some handler =>
      have hmem : handler ∈ n.children := hsub.subset (by simp)
      have hblock : ((Deed.names .scope .catchParameter n.id ((param.map BindingTarget.names).getD []) ++
          handler.blockParts.map Deed.visit).filterMap Deed.part?) = handler.blockParts := by
        rw [List.filterMap_append,parts_names,parts_visits,List.nil_append]
      refine .opened (hlayered.child (by simp [hk,Kind.isScript]) hmem) ?_ ?_ .nil
      · rw [hblock]
        exact fun x hx => mem_walk_of_mem_blockParts hx
      · rw [hblock]
        exact apart_blockParts (h.of_mem_children hmem)
  · exact ⟨n.children,.visits _,h.apart,hchild⟩

end Node

end QmlCodeModel
