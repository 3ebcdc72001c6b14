import QmlCodeModel.Proofs.Symbols.Scopes
import QmlCodeModel.Proofs.Tree.Seen

/-! For which nodes of a tree scopes of functions are opened, and that the parameters of a function are declared
in its scope. -/
namespace QmlCodeModel

namespace Node

/-- What the parameters of a function declare. -/
def parameters (n : Node) : List Declaration :=
  match n.kind with
  | .functionDeclaration f | .functionExpression f =>
    f.params.flatMap fun p => p.target.names.map fun i => ⟨i.name, .parameter, i.span, n.id⟩
  | _ => []

/-- The functions at and below a node, but for those in patterns that are bound. -/
def functions (n : Node) : List Node := n.seen.filter isFunction

/-- For the script of a binding a scope is opened if it is a block, and scopes for the functions in it. -/
def scriptHeads (n : Node) : List Node :=
  match n.kind with
  | .block statements => n :: statements.flatMap functions
  | _ => n.functions

/-- The nodes of a document for which scopes of functions are opened. -/
def heads (n : Node) : List Node :=
  match _h : n.kind with
  | .document _ members | .objectInitializer members | .arrayBinding _ members _ =>
    members.attach.flatMap fun ⟨c, _⟩ => c.heads
  | .objectDefinition _ init | .objectBinding _ _ init _ => init.heads
  | .scriptBinding _ statement => statement.scriptHeads
  | .publicMember m =>
    m.statement.toList.flatMap scriptHeads ++ m.binding.toList.attach.flatMap fun ⟨c, _⟩ => c.heads
  | .sourceElement element => element.functions
  | _ => n.functions
termination_by sizeOf n
decreasing_by
  all_goals
    apply sizeOf_lt_of_mem_children
    simp only [children,_h,Kind.children]
    simp_all

lemma flatMap_attach_heads (nodes : List Node) :
    (nodes.attach.flatMap fun ⟨c, _⟩ => c.heads) = nodes.flatMap heads :=
  flatMap_attach nodes heads

variable {n body : Node}

lemma functions_of_isFunction (h : n.isFunction) : n.functions = n :: n.otherParts.flatMap functions := by
  rw [functions,seen_eq,List.filter_cons_of_pos h,List.filter_flatMap]
  rfl

lemma functions_of_not_isFunction (h : n.isFunction = false) : n.functions = n.otherParts.flatMap functions := by
  rw [functions,seen_eq,List.filter_cons_of_neg (by simp [h]),List.filter_flatMap]
  rfl

lemma functions_bodyParts (body : Node) : body.bodyParts.flatMap functions = body.functions := by
  obtain ⟨id,span,kind⟩ := body
  cases kind
  case block statements => exact (functions_of_not_isFunction (n := .mk id span (.block statements)) rfl).symm
  all_goals exact List.flatMap_singleton functions _

lemma functions_blockParts (h : body.kind.isBlock) : body.blockParts.flatMap functions = body.functions := by
  obtain ⟨id,span,kind⟩ := body
  cases kind
  case block statements => exact (functions_of_not_isFunction (n := .mk id span (.block statements)) rfl).symm
  all_goals exact absurd h Bool.false_ne_true

end Node

/-- The nodes that a step visits. -/
def Step.parts (s : Step) : List Node := s.deeds.filterMap Deed.part?

/-- The functions that a step comes to. -/
def Step.functions (s : Step) : List Node := s.parts.flatMap Node.functions

/-- A step that opens no scope of a function. -/
def Step.isPlain : Step → Bool
  | .deed _ => true
  | .scoped kind _ _ => kind != .function

def Deed.declared? : Deed → Option Declaration
  | .declare _ d => some d
  | .visit _ => none

/-! What the nodes of scripts do. -/

namespace Node

variable {n : Node} {f : FunctionParts Node}

lemma parameters_sub_inner (node : Nat) (f : FunctionParts Node) :
    (f.params.flatMap fun p => p.target.names.map fun i => (⟨i.name, .parameter, i.span, node⟩ : Declaration)) ⊆
      ((f.params.flatMap fun p =>
        Deed.names .scope .parameter node p.target.names ++ p.default.toList.map Deed.visit) ++
          f.body.bodyParts.map Deed.visit).filterMap Deed.declared? := by
  intro d hd
  obtain ⟨p,hp,hd⟩ := List.mem_flatMap.mp hd
  obtain ⟨i,hi,rfl⟩ := List.mem_map.mp hd
  refine List.mem_filterMap.mpr ⟨.declare .scope ⟨i.name, .parameter, i.span, node⟩,List.mem_append_left _ ?_,rfl⟩
  exact List.mem_flatMap.mpr ⟨p,hp,List.mem_append_left _ (List.mem_map_of_mem hi)⟩

/-- A function may declare its name in the scope around, and opens its own scope, where it declares its parameters
and visits its other parts. -/
lemma scopeSteps_of_isFunction (h : n.isFunction) : ∃ names deeds : List Deed,
    n.scopeSteps = names.map Step.deed ++ [.scoped .function n.span deeds] ∧ names.filterMap Deed.part? = [] ∧
      n.parameters ⊆ deeds.filterMap Deed.declared? ∧
      (deeds.filterMap Deed.part?).flatMap functions = n.otherParts.flatMap functions := by
  have hparts (f : FunctionParts Node) : ((f.params.flatMap fun p => p.default.toList) ++ f.body.bodyParts).flatMap
      functions = ((f.params.flatMap fun p => p.default.toList) ++ [f.body]).flatMap functions := by
    rw [List.flatMap_append,List.flatMap_append,functions_bodyParts,List.flatMap_singleton]
  obtain ⟨id,span,kind⟩ := n
  cases kind
  case functionDeclaration f =>
    refine ⟨Deed.names .function .function id f.name.toList,_,rfl,parts_names _ _ _ _,parameters_sub_inner id f,?_⟩
    rw [parts_inner,hparts]
    rfl
  case functionExpression f =>
    refine ⟨[],_,rfl,rfl,fun d hd => ?_,?_⟩
    · rw [List.append_assoc,List.filterMap_append]
      exact List.mem_append_right _ (parameters_sub_inner id f hd)
    · rw [List.append_assoc,List.filterMap_append,parts_names,List.nil_append]
      rw [parts_inner,hparts]
      rfl
  all_goals exact absurd h Bool.false_ne_true

end Node

/-- Steps that open no scopes of functions, and come to the functions at and below these nodes in their order. -/
structure Brings (steps : List Step) (nodes : List Node) : Prop where
  plain : ∀ s ∈ steps, s.isPlain
  functions : steps.flatMap Step.functions = nodes.flatMap Node.functions

namespace Brings

variable {steps steps' : List Step} {nodes nodes' : List Node}

lemma append (h : Brings steps nodes) (h' : Brings steps' nodes') : Brings (steps ++ steps') (nodes ++ nodes') := by
  refine ⟨fun s hs => (List.mem_append.mp hs).elim (h.plain s) (h'.plain s),?_⟩
  rw [List.flatMap_append,List.flatMap_append,h.functions,h'.functions]

lemma trans (h : Brings steps nodes) (hnodes : nodes.flatMap Node.functions = nodes'.flatMap Node.functions) :
    Brings steps nodes' :=
  ⟨h.plain,h.functions.trans hnodes⟩

lemma block (span : Span) (deeds : List Deed) : Brings [.scoped .block span deeds] (deeds.filterMap Deed.part?) :=
  ⟨List.forall_mem_singleton.mpr rfl,List.flatMap_singleton Step.functions _⟩

lemma deeds (ds : List Deed) : Brings (ds.map Step.deed) (ds.filterMap Deed.part?) := by
  induction ds with
  | nil => exact ⟨nofun,rfl⟩
  | cons d ds ih =>
    have hfirst : Brings [.deed d] ([d].filterMap Deed.part?) :=
      ⟨List.forall_mem_singleton.mpr rfl,List.flatMap_singleton Step.functions _⟩
    rw [← List.singleton_append,List.filterMap_append]
    exact hfirst.append ih

lemma visits (parts : List Node) : Brings (parts.map Step.visit) parts := by
  have h := deeds (parts.map Deed.visit)
  rwa [List.map_map,parts_visits] at h

lemma visitsInBlock (span : Span) (parts : List Node) : Brings [.scoped .block span (parts.map Deed.visit)] parts := by
  have h := block span (parts.map Deed.visit)
  rwa [parts_visits] at h

end Brings

namespace Node

/-- The steps of a node that is no function come to the functions below it. -/
lemma brings_scopeSteps {n : Node} (h : n.isFunction = false) (hshaped : n.kind.Shaped n.span) :
    Brings n.scopeSteps n.otherParts := by
  obtain ⟨id,span,kind⟩ := n
  cases kind
  case functionDeclaration => cases h
  case functionExpression => cases h
  case classDeclaration c =>
    have hdeeds := Brings.deeds (Deed.names .scope .className id c.name.toList ++ c.children.map Deed.visit)
    rwa [List.filterMap_append,parts_names,parts_visits,List.nil_append] at hdeeds
  case variableStatement kind declarations =>
    have hdeeds := Brings.deeds (declarations.flatMap (variableDeeds kind))
    rw [parts_variableDeeds] at hdeeds
    refine hdeeds.trans ?_
    rw [List.flatMap_assoc]
    refine List.flatMap_congr fun d hd => ?_
    have hvariable := hshaped d hd
    obtain ⟨number,place,kind⟩ := d
    cases kind
    case variableDeclaration target init =>
      exact (functions_of_not_isFunction (n := .mk number place (.variableDeclaration target init)) rfl).symm
    all_goals exact absurd hvariable Bool.false_ne_true
  case block statements => exact .visitsInBlock span statements
  case «for» => exact .visitsInBlock span _
  case forEach => exact .visitsInBlock span _
  case switch => exact .visitsInBlock span _
  case «try» body param handler finalizer =>
    refine (Brings.visits [body]).append (Brings.append ?_ (.visits finalizer.toList))
    cases handler with
    | none => exact ⟨nofun,rfl⟩
    | some handler =>
      refine (Brings.block handler.span _).trans ?_
      rw [List.filterMap_append,parts_names,parts_visits,List.nil_append,functions_blockParts (hshaped handler rfl)]
      exact (List.flatMap_singleton functions handler).symm
  all_goals exact .visits _

end Node

/-! What is entered for the functions of a tree. -/

namespace SymbolTables

/-- The spans of the scopes of functions, in the order in which they were opened. -/
def functionSpans (t : SymbolTables) : List Span := (t.scopes.toList.filter (·.kind == .function)).map Scope.span

/-- The scope with this number is that of a function with this span, and these are declared in it. -/
def Holds (t : SymbolTables) (k : Nat) (span : Span) (ds : List Declaration) : Prop :=
  ∃ s, t.scopes[k]? = some s ∧ s.kind = .function ∧ s.span = span ∧ ds ⊆ s.declarations

variable {t t' t'' : SymbolTables} {k : Nat} {span : Span} {ds : List Declaration}

lemma functionSpans_declare (t : SymbolTables) (scope : Nat) (d : Declaration) :
    (t.declare scope d).functionSpans = t.functionSpans := by
  have hview (t : SymbolTables) : t.functionSpans =
      ((t.scopes.toList.map fun s => (s.kind, s.span)).filter (·.1 == .function)).map Prod.snd := by
    simp [functionSpans,List.filter_map,Function.comp_def]
  have hsame : ((t.declare scope d).scopes.toList.map fun s => (s.kind, s.span)) =
      t.scopes.toList.map fun s => (s.kind, s.span) :=
    map_modify_same _ _ _ fun _ => rfl
  rw [hview,hview,hsame]

lemma functionSpans_openScope (t : SymbolTables) (kind : ScopeKind) (span : Span) (parent : Option Nat) :
    (t.openScope kind span parent).functionSpans = t.functionSpans ++ if kind = .function then [span] else [] := by
  cases kind <;> simp [functionSpans,openScope]

lemma Holds.declare (h : t.Holds k span ds) (scope : Nat) (d : Declaration) : (t.declare scope d).Holds k span ds := by
  obtain ⟨s,hs,hkind,hspan,hds⟩ := h
  refine ⟨if scope = k then { s with declarations := s.declarations ++ [d] } else s,?_,?_,?_,?_⟩
  · simp only [SymbolTables.declare,Array.getElem?_modify,hs]
    split <;> rfl
  all_goals split
  all_goals first | exact hkind | exact hspan | exact hds | exact fun e he => List.mem_append_left _ (hds he)

/-- What is declared in the scope itself. -/
lemma Holds.declare_self (h : t.Holds k span ds) (d : Declaration) : (t.declare k d).Holds k span (ds ++ [d]) := by
  obtain ⟨s,hs,hkind,hspan,hds⟩ := h
  refine ⟨{ s with declarations := s.declarations ++ [d] },?_,hkind,hspan,?_⟩
  · simp [SymbolTables.declare,Array.getElem?_modify,hs]
  · exact List.append_subset.mpr ⟨fun e he => List.mem_append_left _ (hds he),List.subset_append_right _ _⟩

lemma Holds.openScope (h : t.Holds k span ds) (kind : ScopeKind) (place : Span) (parent : Option Nat) :
    (t.openScope kind place parent).Holds k span ds := by
  obtain ⟨s,hs,h⟩ := h
  refine ⟨s,?_,h⟩
  have hlt := (Array.getElem?_eq_some_iff.mp hs).1
  rw [SymbolTables.openScope,Array.getElem?_push_lt hlt,← hs,Array.getElem?_eq_getElem hlt]

lemma holds_opened (t : SymbolTables) (span : Span) (parent : Option Nat) :
    (t.openScope .function span parent).Holds t.scopes.size span [] :=
  ⟨⟨.function, span, parent, []⟩,by simp [openScope],rfl,rfl,List.nil_subset _⟩

/-- Scopes of functions are opened for these nodes, in this order. Each has what the parameters of its function
declare, and those that were there have what they had. -/
structure Visits (t t' : SymbolTables) (nodes : List Node) : Prop where
  spans : t'.functionSpans = t.functionSpans ++ nodes.map Node.span
  kept : ∀ k span ds, t.Holds k span ds → t'.Holds k span ds
  entered : ∀ n ∈ nodes, ∃ k, t'.Holds k n.span n.parameters

namespace Visits

variable {nodes nodes' : List Node}

lemma of_scopes (h : t'.scopes = t.scopes) : Visits t t' [] := by
  refine ⟨?_,?_,nofun⟩
  · simp [functionSpans,h]
  · unfold Holds
    rw [h]
    exact fun _ _ _ => id

lemma refl (t : SymbolTables) : Visits t t [] := .of_scopes rfl

lemma trans (h : Visits t t' nodes) (h' : Visits t' t'' nodes') : Visits t t'' (nodes ++ nodes') := by
  refine ⟨?_,fun k span ds => h'.kept k span ds ∘ h.kept k span ds,fun n hn => ?_⟩
  · rw [h'.spans,h.spans,List.map_append,List.append_assoc]
  · obtain hn | hn := List.mem_append.mp hn
    · obtain ⟨k,hk⟩ := h.entered n hn
      exact ⟨k,h'.kept _ _ _ hk⟩
    · exact h'.entered n hn

lemma declare (t : SymbolTables) (scope : Nat) (d : Declaration) : Visits t (t.declare scope d) [] := by
  refine ⟨?_,fun k span ds h => h.declare scope d,nofun⟩
  rw [functionSpans_declare,List.map_nil,List.append_nil]

lemma foldl {α : Type} {f : SymbolTables → α → SymbolTables} {g : α → List Node} {l : List α}
    (h : ∀ x ∈ l, ∀ t, Visits t (f t x) (g x)) : Visits t (l.foldl f t) (l.flatMap g) := by
  induction l generalizing t with
  | nil => exact .refl t
  | cons x l ih => exact (h x List.mem_cons_self t).trans (ih fun y hy => h y (List.mem_cons_of_mem _ hy))

end Visits

/-- Scopes are opened for the functions of a node of a script, wherever it is visited. -/
def Shows (n : Node) : Prop := ∀ c t, Visits t (script c t n) n.functions

variable {c : Surroundings} {deeds : List Deed} {n : Node}

lemma visits_deeds (h : ∀ x ∈ deeds.filterMap Deed.part?, Shows x) :
    Visits t (deeds.foldl (act c) t) ((deeds.filterMap Deed.part?).flatMap Node.functions) := by
  induction deeds generalizing t with
  | nil => exact .refl t
  | cons d deeds ih =>
    cases d with
    | declare reach d => exact (Visits.declare t _ d).trans (ih h)
    | visit x => exact (h x List.mem_cons_self c t).trans (ih fun y hy => h y (List.mem_cons_of_mem _ hy))

/-- Whatever is declared right inside the scope of a function is declared in it. -/
lemma holds_deeds (h : ∀ x ∈ deeds.filterMap Deed.part?, Shows x) (ht : t.Holds k span ds) :
    (deeds.foldl (act ⟨k, k⟩) t).Holds k span (ds ++ deeds.filterMap Deed.declared?) := by
  induction deeds generalizing t ds with
  | nil => simpa using ht
  | cons d deeds ih =>
    cases d with
    | declare reach d =>
      have hreach : (⟨k, k⟩ : Surroundings).reach reach = k := by cases reach <;> rfl
      have hrest := ih h (ht.declare_self d)
      rw [List.append_assoc] at hrest
      rw [List.foldl_cons,act,hreach]
      exact hrest
    | visit x => exact ih (fun y hy => h y (List.mem_cons_of_mem _ hy)) ((h x List.mem_cons_self _ t).kept _ _ _ ht)

/-- A scope of a function is opened for a node, and inside it those for its parts. -/
lemma visits_opened (h : ∀ x ∈ deeds.filterMap Deed.part?, Shows x) (hn : n.parameters ⊆ deeds.filterMap Deed.declared?)
    (parent : Option Nat) :
    Visits t (deeds.foldl (act (t.inside c .function)) (t.openScope .function n.span parent))
      (n :: (deeds.filterMap Deed.part?).flatMap Node.functions) := by
  have hparts : Visits (t.openScope .function n.span parent) _ _ := visits_deeds (c := t.inside c .function) h
  refine ⟨?_,fun k span ds h => hparts.kept k span ds (h.openScope _ _ _),fun x hx => ?_⟩
  · rw [hparts.spans,functionSpans_openScope,if_pos rfl,List.append_assoc]
    rfl
  · obtain rfl | hx := List.mem_cons.mp hx
    · obtain ⟨s,hs,hkind,hspan,hds⟩ := holds_deeds h (holds_opened t x.span parent)
      exact ⟨_,s,hs,hkind,hspan,fun d hd => hds (hn hd)⟩
    · exact hparts.entered x hx

lemma visits_step {s : Step} (hplain : s.isPlain) (h : ∀ x ∈ s.parts, Shows x) :
    Visits t (t.perform c s) s.functions := by
  obtain d | ⟨kind,span,deeds⟩ := s
  · exact (visits_deeds h : Visits t ([d].foldl (act c) t) _)
  · have hopened : Visits t (t.openScope kind span (some c.scope)) [] := by
      refine ⟨?_,fun _ _ _ h => h.openScope _ _ _,nofun⟩
      rw [functionSpans_openScope,if_neg (by simpa [Step.isPlain] using hplain)]
      rfl
    exact hopened.trans (visits_deeds h)

/-- By induction on the size: scopes are opened for the functions of a node of a script. -/
theorem shows_script (n : Node) (h : ∀ x ∈ n.walk, x.kind.Shaped x.span) : Shows n := by
  induction hsize : sizeOf n using Nat.strongRecOn generalizing n with
  | ind size ih =>
    subst hsize
    intro c t
    have hparts : ∀ s ∈ n.scopeSteps, ∀ x ∈ s.parts, Shows x := by
      intro s hs x hx
      have hnear := Node.isNear_of_mem_scopeSteps hs (mem_parts_iff.mp hx)
      exact ih _ hnear.sizeOf_lt x (fun y hy => h y (Node.mem_walk_trans (Node.mem_walk_of_isNear hnear) hy)) rfl
    rw [script_eq]
    cases hfunction : n.isFunction with
    | true =>
      obtain ⟨names,deeds,hsteps,hnames,hparameters,hfunctions⟩ := n.scopeSteps_of_isFunction hfunction
      have hname : Visits t (names.foldl (act c) t) _ := visits_deeds (by simp [hnames])
      rw [hnames] at hname
      have hopened := visits_opened (t := names.foldl (act c) t) (c := c)
        (hparts (.scoped .function n.span deeds) (by simp [hsteps])) hparameters (some c.scope)
      rw [n.functions_of_isFunction hfunction,← hfunctions,hsteps,List.foldl_append,List.foldl_map]
      exact hname.trans hopened
    | false =>
      have hbrings := n.brings_scopeSteps hfunction (h n n.mem_walk_self)
      rw [n.functions_of_not_isFunction hfunction,← hbrings.functions]
      exact Visits.foldl fun s hs t => visits_step (hbrings.plain s hs) (hparts s hs)

/-! Documents. -/

lemma visits_header (t : SymbolTables) (n : Node) : Visits t (t.header n) [] := by
  unfold header
  split
  · exact .declare t 0 _
  · exact .refl t

lemma visits_binding (h : ∀ x ∈ n.walk, x.kind.Shaped x.span) : Visits t (t.binding n) n.scriptHeads := by
  have hscript := shows_script n h {} t
  obtain ⟨id,span,kind⟩ := n
  cases kind
  case block statements =>
    have hparts : ∀ x ∈ (statements.map Deed.visit).filterMap Deed.part?, Shows x := by
      rw [parts_visits]
      exact fun x hx => shows_script x fun y hy => h y (Node.mem_walk_of_mem_children hx hy)
    have hopened := visits_opened (t := t) (c := {}) (n := .mk id span (.block statements)) hparts
      (List.nil_subset _) (some 0)
    rwa [parts_visits,List.foldl_map] at hopened
  all_goals exact hscript

/-- By induction on the tree: scopes are opened for the heads of a node of a document. -/
theorem visits_member (h : ∀ x ∈ n.walk, x.kind.Shaped x.span) (object : Option Nat) :
    Visits t (member object t n) n.heads := by
  induction n using Node.walk.induct generalizing object t with
  | case1 n ih =>
    have hbelow {c : Node} (hc : c ∈ n.children) : ∀ x ∈ c.walk, x.kind.Shaped x.span :=
      fun x hx => h x (Node.mem_walk_of_mem_children hc hx)
    have hmembers {members : List Node} (hsub : ∀ c ∈ members, c ∈ n.children) {u : SymbolTables}
        (hu : Visits t u []) : Visits t (members.foldl (member object) u) (members.flatMap Node.heads) :=
      hu.trans (Visits.foldl fun c hc _ => ih c (hsub c hc) (hbelow (hsub c hc)) object)
    have hleaf (hfunction : n.isFunction = false) (hparts : n.otherParts = []) {u : SymbolTables}
        (hu : Visits t u []) : Visits t u n.functions := by
      rwa [n.functions_of_not_isFunction hfunction,hparts]
    have hscript := shows_script n h {} t
    obtain ⟨id,span,kind⟩ := n
    rw [member,Node.heads]
    cases kind
    case document headers members =>
      simp only [Node.kind,foldl_attach_member,Node.flatMap_attach_heads]
      refine hmembers (fun c hc => List.mem_append_right _ hc) ?_
      have hheaders := Visits.foldl (t := t) (l := headers) (g := fun _ => []) fun x _ u => visits_header u x
      rwa [List.flatMap_eq_nil_iff.mpr fun _ _ => rfl] at hheaders
    case objectDefinition typeName init =>
      have hadd : Visits t (t.addObject id typeName.joined object).2 [] := .of_scopes rfl
      exact hadd.trans (ih init (List.mem_singleton_self init) (hbelow (List.mem_singleton_self init)) _)
    case objectBinding name typeName init on =>
      refine Visits.trans (.of_scopes ?_) (ih init (List.mem_singleton_self init)
        (hbelow (List.mem_singleton_self init)) _)
      exact scopes_addMember t object _ _ _
    case objectInitializer members =>
      simp only [Node.kind,foldl_attach_member,Node.flatMap_attach_heads]
      exact hmembers (fun c hc => hc) (.refl t)
    case scriptBinding name statement =>
      refine Visits.trans (.of_scopes ?_) (visits_binding (hbelow (List.mem_singleton_self statement)))
      rw [scopes_addMember]
      exact view_naming (v := scopes) scopes_bindId t object name statement
    case arrayBinding name members brackets =>
      simp only [Node.kind,foldl_attach_member,Node.flatMap_attach_heads]
      exact hmembers (fun c hc => hc) (.of_scopes (scopes_addMember t object _ _ _))
    case publicMember m =>
      simp only [Node.kind,foldl_attach_member,Node.flatMap_attach_heads]
      have hadd := scopes_addMember t object m.name.name (declaredKind m) (.mk id span (.publicMember m))
      have hstatement (u : SymbolTables) :
          Visits u (m.statement.toList.foldl binding u) (m.statement.toList.flatMap Node.scriptHeads) :=
        Visits.foldl fun c hc _ => visits_binding (hbelow (List.mem_append_left m.binding.toList hc))
      have hvalue (u : SymbolTables) :
          Visits u (m.binding.toList.foldl (member object) u) (m.binding.toList.flatMap Node.heads) :=
        Visits.foldl fun c hc _ =>
          have hc := List.mem_append_right m.statement.toList hc
          ih c hc (hbelow hc) object
      exact (Visits.of_scopes hadd).trans ((hstatement _).trans (hvalue _))
    case sourceElement element =>
      refine Visits.trans (.of_scopes ?_) (shows_script element (hbelow (List.mem_singleton_self element)) {} _)
      exact view_foldl (v := scopes) t fun x _ u => scopes_addMember u object x.1 x.2.1 x.2.2
    case enumDeclaration => exact hleaf rfl rfl (.of_scopes (scopes_addMember t object _ _ _))
    case importing => exact hleaf rfl rfl (visits_header t _)
    case pragma => exact hleaf rfl rfl (visits_header t _)
    all_goals exact hscript

end SymbolTables

end QmlCodeModel
