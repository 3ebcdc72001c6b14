import QmlCodeModel.Proofs.Grammar.Spans
import QmlCodeModel.Proofs.Symbols.Scopes
import QmlCodeModel.Proofs.Token.Account

/-! Where the names stand that are declared in the scopes of a source. Each stands at a token of its own, but
for a name in a pattern that has a default and no colon: its declaration covers the default too. -/
namespace QmlCodeModel

section

variable {reach reach' : Reach} {kind : DeclarationKind} {node : Nat} {names : List Ident} {d : Declaration}
  {n : Node} {s : Step}

lemma declare_mem_names_iff : .declare reach d ∈ Deed.names reach' kind node names ↔
    reach' = reach ∧ ∃ i ∈ names, ⟨i.name, kind, i.span, node⟩ = d := by
  simp [Deed.names,and_left_comm]

lemma declare_notMem_visits {parts : List Node} : .declare reach d ∉ parts.map Deed.visit := by
  simp

lemma declare_mem_of_deeds {deeds : List Deed} (hs : s ∈ deeds.map Step.deed) (hd : .declare reach d ∈ s.deeds) :
    .declare reach d ∈ deeds := by
  obtain ⟨deed,hdeed,rfl⟩ := List.mem_map.mp hs
  exact List.mem_singleton.mp hd ▸ hdeed

namespace Node

/-- The names that a node declares by itself, those in its patterns included. -/
def boundNames (n : Node) : List Ident :=
  match n.kind with
  | .importing _ _ qualifier => qualifier.toList
  | .functionDeclaration f | .functionExpression f => f.name.toList ++ f.params.flatMap fun p => p.target.names
  | .classDeclaration c => c.name.toList
  | .variableStatement _ declarations =>
    declarations.flatMap fun declaration =>
      match declaration.kind with
      | .variableDeclaration target _ => target.names
      | _ => []
  | .try _ param _ _ => (param.map BindingTarget.names).getD []
  | _ => []

lemma mem_of_functionSteps {f : FunctionParts Node} {isExpression : Bool} (hs : s ∈ n.functionSteps f isExpression)
    (hd : .declare reach d ∈ s.deeds) :
    ⟨d.name, d.span⟩ ∈ f.name.toList ++ f.params.flatMap fun p => p.target.names := by
  have hname {i : Ident} (hi : f.name = some i) : i ∈ f.name.toList ++ f.params.flatMap fun p => p.target.names := by
    simp [hi]
  have hparam {p : FormalParameter Node} (hp : p ∈ f.params) {i : Ident} (hi : i ∈ p.target.names) :
      i ∈ f.name.toList ++ f.params.flatMap fun p => p.target.names :=
    List.mem_append_right _ (List.mem_flatMap.mpr ⟨p,hp,hi⟩)
  cases isExpression with
  | true =>
    simp only [functionSteps,if_true,List.mem_singleton] at hs
    subst hs
    simp only [Step.deeds,List.mem_append,List.mem_flatMap,declare_mem_names_iff,declare_notMem_visits,or_false,
      Option.mem_toList] at hd
    obtain ⟨-,i,hi,rfl⟩ | ⟨p,hp,-,i,hi,rfl⟩ := hd
    · exact hname hi
    · exact hparam hp hi
  | false =>
    simp only [functionSteps,Bool.false_eq_true,if_false,List.mem_append,List.mem_singleton] at hs
    obtain hs | rfl := hs
    · obtain ⟨-,i,hi,rfl⟩ := declare_mem_names_iff.mp (declare_mem_of_deeds hs hd)
      exact hname (Option.mem_toList.mp hi)
    · simp only [Step.deeds,List.mem_append,List.mem_flatMap,declare_mem_names_iff,declare_notMem_visits,or_false] at hd
      obtain ⟨p,hp,-,i,hi,rfl⟩ := hd
      exact hparam hp hi

lemma Introduces.mem_boundNames (h : n.Introduces d) : ⟨d.name, d.span⟩ ∈ n.boundNames := by
  cases h with
  | header hk => simp [boundNames,hk]
  | @script s reach d hs hd =>
    unfold scopeSteps at hs
    unfold boundNames
    split at hs
    · rename_i f hk
      rw [hk]
      exact mem_of_functionSteps hs hd
    · rename_i f hk
      rw [hk]
      exact mem_of_functionSteps hs hd
    · rename_i c hk
      rw [hk]
      have hd := declare_mem_of_deeds hs hd
      simp only [List.mem_append,declare_mem_names_iff,declare_notMem_visits,or_false] at hd
      obtain ⟨-,i,hi,rfl⟩ := hd
      exact hi
    · rename_i kind declarations hk
      rw [hk]
      obtain ⟨declaration,hmem,hd⟩ := List.mem_flatMap.mp (declare_mem_of_deeds hs hd)
      refine List.mem_flatMap.mpr ⟨declaration,hmem,?_⟩
      unfold variableDeeds at hd
      cases kind <;> simp only [List.mem_append,declare_mem_names_iff,declare_notMem_visits,or_false] at hd <;>
        obtain ⟨-,i,hi,rfl⟩ := hd <;> exact hi
    all_goals try
      rename_i hk
      rw [List.mem_singleton] at hs
      subst hs
      exact absurd hd declare_notMem_visits
    · rename_i body param handler finalizer hk
      rw [hk]
      simp only [List.mem_cons,List.mem_append,List.mem_map,Option.mem_toList] at hs
      obtain rfl | ⟨x,hx,rfl⟩ | ⟨x,hx,rfl⟩ := hs
      · cases List.mem_singleton.mp hd
      · simp only [handlerStep,Step.deeds,List.mem_append,declare_mem_names_iff,declare_notMem_visits,or_false] at hd
        obtain ⟨-,i,hi,rfl⟩ := hd
        exact hi
      · cases List.mem_singleton.mp hd
    · obtain ⟨x,-,rfl⟩ := List.mem_map.mp hs
      cases List.mem_singleton.mp hd

end Node

end

/-! Names in patterns. -/

namespace Node

variable {tokens : List Token} {n c : Node} {i : Ident} {target : BindingTarget Node}

/-- A property that is a name with a default and no colon, which is said to be where the name stands. -/
def Defaults (n : Node) (i : Ident) : Prop :=
  ∃ value isStatic, n.kind = .property (.name i.name) (some value) .shorthand isStatic ∧
    (∀ text, value.kind ≠ .identifier text) ∧ n.span = i.span

/-- A name stands at a token, or it has a default at or below this node. -/
def Names (tokens : List Token) (n : Node) (i : Ident) : Prop :=
  i.From tokens ∨ ∃ y ∈ n.walk, y.Defaults i

lemma Names.of_mem_children (h : c.Names tokens i) (hc : c ∈ n.children) : n.Names tokens i :=
  h.imp_right fun ⟨y,hy,hdefaults⟩ => ⟨y,mem_walk_of_mem_children hc hy,hdefaults⟩

/-- By induction on the pattern. -/
lemma names_of_mem_patternNames (h : ∀ x ∈ n.walk, x.kind.Formed tokens x.span) (hi : i ∈ n.patternNames) :
    n.Names tokens i := by
  have hself {n : Node} (h : ∀ x ∈ n.walk, x.kind.Formed tokens x.span) {name : String}
      (hk : n.kind = .identifier name) : Ident.From tokens ⟨name, n.span⟩ :=
    (h n n.mem_walk_self).spelled name hk
  have hchild {n c : Node} (h : ∀ x ∈ n.walk, x.kind.Formed tokens x.span) (hc : c ∈ n.children) :
      ∀ x ∈ c.walk, x.kind.Formed tokens x.span :=
    fun x hx => h x (mem_walk_of_mem_children hc hx)
  fun_induction Node.patternNames n with
  | case1 n name hk =>
    rw [List.mem_singleton.mp hi]
    exact .inl (hself h hk)
  | case2 n elements hk ih =>
    obtain ⟨⟨element | element,hmem⟩,-,hi⟩ := List.mem_flatMap.mp hi
    · cases hi
    · have hc : element ∈ n.children := by simpa [children,hk,Kind.children] using hmem
      exact (ih element hmem (hchild h hc) hi).of_mem_children hc
  | case3 n properties hk ih =>
    obtain ⟨⟨property,hmem⟩,-,hi⟩ := List.mem_flatMap.mp hi
    have hc : property ∈ n.children := by simpa [children,hk,Kind.children] using hmem
    exact (ih property hmem (hchild h hc) hi).of_mem_children hc
  | case4 n name value isStatic hk text hvalue =>
    have hc : value ∈ n.children := by simp [children,hk,Kind.children]
    rw [List.mem_singleton.mp hi]
    exact .inl (hself (hchild h hc) hvalue)
  | case5 n name value isStatic hk hvalue =>
    rw [List.mem_singleton.mp hi]
    exact .inr ⟨n,n.mem_walk_self,value,isStatic,hk,hvalue,rfl⟩
  | case6 => cases hi
  | case7 n key value kind isStatic _ _ hk ih =>
    have hc : value ∈ n.children := by simp [children,hk,Kind.children]
    exact (ih (hchild h hc) hi).of_mem_children hc
  | case8 n argument hk ih =>
    have hc : argument ∈ n.children := by simp [children,hk,Kind.children]
    exact (ih (hchild h hc) hi).of_mem_children hc
  | case9 n operator target value hk ih =>
    have hc : target ∈ n.children := by simp [children,hk,Kind.children]
    exact (ih (hchild h hc) hi).of_mem_children hc
  | case10 => cases hi

/-- The names of a target of a node. -/
lemma names_of_mem_names (h : ∀ x ∈ n.walk, x.kind.Formed tokens x.span) (hidents : ∀ i ∈ target.idents, i.From tokens)
    (hc : ∀ c ∈ target.children, c ∈ n.children) (hi : i ∈ target.names) : n.Names tokens i := by
  cases target with
  | name j =>
    rw [BindingTarget.names,List.mem_singleton] at hi
    subst hi
    exact .inl (hidents i (List.mem_singleton_self i))
  | pattern literal =>
    have hc := hc literal (List.mem_singleton_self literal)
    exact (names_of_mem_patternNames (fun x hx => h x (mem_walk_of_mem_children hc hx)) hi).of_mem_children hc

/-- Every name that a node declares stands at a token or has a default. -/
theorem names_of_mem_boundNames (h : ∀ x ∈ n.walk, x.kind.Formed tokens x.span) (hi : i ∈ n.boundNames) :
    n.Names tokens i := by
  have hnamed := (h n n.mem_walk_self).named
  have hfunction {f : FunctionParts Node} (hidents : n.kind.idents = f.idents) (hchildren : n.children = f.children)
      (hi : i ∈ f.name.toList ++ f.params.flatMap fun p => p.target.names) : n.Names tokens i := by
    rw [hidents] at hnamed
    obtain hi | hi := List.mem_append.mp hi
    · exact .inl (hnamed i (List.mem_append_left _ hi))
    · obtain ⟨p,hp,hi⟩ := List.mem_flatMap.mp hi
      refine names_of_mem_names h (fun j hj => hnamed j ?_) (fun c hc => ?_) hi
      · exact List.mem_append_right _ (List.mem_flatMap.mpr ⟨p,hp,hj⟩)
      · rw [hchildren,FunctionParts.children]
        exact List.mem_append_left _ (List.mem_flatMap.mpr ⟨p,hp,List.mem_append_left _ hc⟩)
  unfold boundNames at hi
  split at hi
  · rename_i hk
    exact .inl (hnamed i (by simpa [Kind.idents,hk] using hi))
  · rename_i f hk
    exact hfunction (by simp [hk,Kind.idents]) (by simp [children,hk,Kind.children]) hi
  · rename_i f hk
    exact hfunction (by simp [hk,Kind.idents]) (by simp [children,hk,Kind.children]) hi
  · rename_i c hk
    exact .inl (hnamed i (by simpa [Kind.idents,hk] using hi))
  · rename_i kind declarations hk
    obtain ⟨declaration,hmem,hi⟩ := List.mem_flatMap.mp hi
    have hc : declaration ∈ n.children := by simpa [children,hk,Kind.children] using hmem
    split at hi
    · rename_i target init hkind
      have hbelow : ∀ x ∈ declaration.walk, x.kind.Formed tokens x.span :=
        fun x hx => h x (mem_walk_of_mem_children hc hx)
      have hidents := (hbelow declaration declaration.mem_walk_self).named
      rw [hkind] at hidents
      refine (names_of_mem_names hbelow hidents (fun x hx => ?_) hi).of_mem_children hc
      simp [children,hkind,Kind.children,hx]
    · cases hi
  · rename_i body param handler finalizer hk
    cases param with
    | none => cases hi
    | some target =>
      rw [hk] at hnamed
      refine names_of_mem_names h hnamed (fun x hx => ?_) hi
      simp [children,hk,Kind.children,hx]
  · cases hi

end Node

namespace SymbolTables

section keeps

variable {P : Array Scope → Prop} {t : SymbolTables} {n : Node}
  (openScope : ∀ (t : SymbolTables) kind span parent, P t.scopes → P (t.openScope kind span parent).scopes)

include openScope

/-- What new scopes keep, and the names that nodes at and below this one introduce, a node of a document keeps.
By induction on the tree. -/
theorem keeps_member
    (declare : ∀ x ∈ n.walk, ∀ d, x.Introduces d → ∀ (t : SymbolTables) scope, P t.scopes → P (t.declare scope d).scopes)
    (object : Option Nat) (ht : P t.scopes) : P (member object t n).scopes := by
  induction n using Node.walk.induct generalizing object t with
  | case1 n ih =>
    have hbelow {c : Node} (hc : c ∈ n.children) : ∀ x ∈ c.walk, ∀ d, x.Introduces d →
        ∀ (t : SymbolTables) scope, P t.scopes → P (t.declare scope d).scopes :=
      fun x hx => declare x (Node.mem_walk_of_mem_children hc hx)
    have hmembers {members : List Node} (hsub : ∀ c ∈ members, c ∈ n.children) {t : SymbolTables} (ht : P t.scopes) :
        P (members.foldl (member object) t).scopes :=
      keeps_foldl (P := fun t => P t.scopes) (fun c hc _ => ih c (hsub c hc) (hbelow (hsub c hc)) object) ht
    have hbinding {c : Node} (hc : c ∈ n.children) {t : SymbolTables} (ht : P t.scopes) : P (t.binding c).scopes :=
      keeps_binding (P := fun t => P t.scopes) openScope (hbelow hc) ht
    have hheader {c : Node} (hc : c ∈ n.walk) (t : SymbolTables) (ht : P t.scopes) : P (t.header c).scopes := by
      unfold header
      split
      · exact declare c hc _ (.header ‹_›) t 0 ht
      · exact ht
    have hscript {c : Node} (hc : ∀ x ∈ c.walk, x ∈ n.walk) {t : SymbolTables} (ht : P t.scopes) :
        P (t.script {} c).scopes :=
      keeps_script (P := fun t => P t.scopes) openScope (fun x hx => declare x (hc x hx)) {} ht
    obtain ⟨id,span,kind⟩ := n
    rw [member]
    cases kind
    case document headers members =>
      simp only [Node.kind,foldl_attach_member]
      refine hmembers (fun c hc => List.mem_append_right _ hc) ?_
      refine keeps_foldl (P := fun t => P t.scopes) (fun c hc => hheader ?_) ht
      exact Node.mem_walk_of_mem_children (List.mem_append_left _ hc) c.mem_walk_self
    case objectDefinition typeName init =>
      exact ih init (List.mem_singleton_self init) (hbelow (List.mem_singleton_self init)) _ ht
    case objectBinding name typeName init on =>
      refine ih init (List.mem_singleton_self init) (hbelow (List.mem_singleton_self init)) _ ?_
      exact (scopes_addMember t object _ _ _).symm ▸ ht
    case objectInitializer members =>
      simp only [Node.kind,foldl_attach_member]
      exact hmembers (fun c hc => hc) ht
    case scriptBinding name statement =>
      refine hbinding (List.mem_singleton_self statement) ?_
      rw [scopes_addMember]
      exact (congrArg P (view_naming (v := scopes) scopes_bindId t object name statement)).mpr ht
    case arrayBinding name members brackets =>
      simp only [Node.kind,foldl_attach_member]
      exact hmembers (fun c hc => hc) ((scopes_addMember t object _ _ _).symm ▸ ht)
    case publicMember m =>
      simp only [Node.kind,foldl_attach_member]
      refine hmembers (fun c hc => List.mem_append_right _ hc) ?_
      refine keeps_foldl (P := fun t => P t.scopes) (fun c hc t => hbinding (List.mem_append_left _ hc)) ?_
      rwa [scopes_addMember]
    case sourceElement element =>
      refine hscript (fun x hx => Node.mem_walk_of_mem_children (List.mem_singleton_self element) hx) ?_
      exact keeps_foldl (P := fun t => P t.scopes) (fun x _ u hu => (scopes_addMember u object _ _ _).symm ▸ hu) ht
    case enumDeclaration => exact (scopes_addMember t object _ _ _).symm ▸ ht
    case importing => exact hheader (Node.mem_walk_self _) t ht
    case pragma => exact hheader (Node.mem_walk_self _) t ht
    all_goals exact hscript (fun x hx => hx) ht

end keeps

/-- Whatever is declared in a scope of a tree is introduced by a node of the tree. -/
theorem introduces_of_mem {root : Node} {s : Scope} {d : Declaration} (hs : s ∈ (ofRoot root).scopes)
    (hd : d ∈ s.declarations) : ∃ x ∈ root.walk, x.Introduces d := by
  suffices h : ∀ s ∈ (ofRoot root).scopes, ∀ d ∈ s.declarations, ∃ x ∈ root.walk, x.Introduces d from h s hs d hd
  refine keeps_member (P := fun scopes => ∀ s ∈ scopes, ∀ d ∈ s.declarations, ∃ x ∈ root.walk, x.Introduces d)
    (fun t kind span parent ht s hs => ?_) (fun x hx d hd t scope ht s hs e he => ?_) none ?_
  · obtain hs | rfl := Array.mem_push.mp hs
    · exact ht s hs
    · exact List.forall_mem_nil _
  · obtain ⟨i,hi,rfl⟩ := Array.mem_iff_getElem.mp hs
    simp only [SymbolTables.declare,Array.getElem_modify] at he
    split at he
    · obtain he | he := List.mem_append.mp he
      · exact ht _ (Array.getElem_mem _) e he
      · exact ⟨x,hx,List.mem_singleton.mp he ▸ hd⟩
    · exact ht _ (Array.getElem_mem _) e he
  · intro s hs
    obtain rfl : s = ⟨.global, root.span, none, []⟩ := by simpa [SymbolTables.openScope] using hs
    exact List.forall_mem_nil _

end SymbolTables

/-- A declaration in a scope of a source stands where the source has its name, unless the name has a default
and no colon in a pattern. Then the declaration stands where the name and the default do. -/
theorem declared_at_name_iff {form : SourceForm} {source : String} {p : Parse} {s : Scope} {d : Declaration}
    (h : parse? form source = some p) (hs : s ∈ (SymbolTables.ofRoot p.root).scopes) (hd : d ∈ s.declarations) :
    sliceText? source d.span = some d.name ↔ ¬∃ y ∈ p.root.walk, y.Defaults ⟨d.name, d.span⟩ := by
  have hformed := Grammar.formed_of_parse? h
  obtain ⟨tokens,eof,htokens,-,-,-,-,-,haccounts⟩ := accounts_tokenize source
  rw [htokens,List.dropLast_concat] at hformed
  constructor
  · rintro hslice ⟨y,hy,value,isStatic,hk,hvalue,hspan⟩
    obtain ⟨text,htext⟩ | ⟨t,ht,htext,hstart,hstop⟩ := (hformed y hy).shorthand d.name value isStatic hk
    · exact hvalue text htext
    · have hwidth := byteWidth_of_sliceText? hslice
      obtain ⟨before,later,-,htoken⟩ := haccounts.texts t ht
      have hpos : y.span = d.span := hspan
      simp only [hpos,htoken,htext] at hstart hstop
      omega
  · intro hnone
    obtain ⟨x,hx,hd⟩ := SymbolTables.introduces_of_mem hs hd
    have hnames := Node.names_of_mem_boundNames (fun y hy => hformed y (Node.mem_walk_trans hx hy)) hd.mem_boundNames
    obtain ⟨t,ht,hident⟩ | ⟨y,hy,hdefaults⟩ := hnames
    · obtain ⟨hname,hspan⟩ := Ident.mk.inj hident
      rw [hname,hspan,(haccounts.texts t ht).slice,String.ofList_toList]
    · exact absurd ⟨y,Node.mem_walk_trans hx hy,hdefaults⟩ hnone

/-- A name with a default in an array stands where it does. -/
theorem declared_at_name_array : ∃ p s d, parse? .program "var [a = 1] = x" = some p ∧
    s ∈ (SymbolTables.ofRoot p.root).scopes ∧ d ∈ s.declarations ∧ d.span = ⟨5, 6⟩ ∧
    (sliceText? "var [a = 1] = x" d.span = some d.name ↔ ¬∃ y ∈ p.root.walk, y.Defaults ⟨d.name, d.span⟩) := by
  have h : (parse? .program "var [a = 1] = x").any fun p => (SymbolTables.ofRoot p.root).scopes =
      #[⟨.global, ⟨0, 15⟩, none, [⟨"a", .var, ⟨5, 6⟩, 5⟩]⟩] := by
    decide +kernel
  obtain ⟨p,hp,hscopes⟩ := (Option.any_eq_true _ _).mp h
  have hs := Array.mem_of_getElem? (congrArg (·[0]?) (of_decide_eq_true hscopes))
  exact ⟨p,_,_,hp,hs,List.mem_singleton_self _,rfl,declared_at_name_iff hp hs (List.mem_singleton_self _)⟩

/-- In an object the declaration covers the default. -/
theorem declared_at_default : ∃ p s d, parse? .program "var \x7ba = 1\x7d = x" = some p ∧
    s ∈ (SymbolTables.ofRoot p.root).scopes ∧ d ∈ s.declarations ∧ d.name = "a" ∧
    sliceText? "var \x7ba = 1\x7d = x" d.span = some "a = 1" := by
  have h : (parse? .program "var \x7ba = 1\x7d = x").any fun p => (SymbolTables.ofRoot p.root).scopes =
      #[⟨.global, ⟨0, 15⟩, none, [⟨"a", .var, ⟨5, 10⟩, 6⟩]⟩] := by
    decide +kernel
  obtain ⟨p,hp,hscopes⟩ := (Option.any_eq_true _ _).mp h
  have hs := Array.mem_of_getElem? (congrArg (·[0]?) (of_decide_eq_true hscopes))
  exact ⟨p,_,_,hp,hs,List.mem_singleton_self _,rfl,by decide +kernel⟩

end QmlCodeModel
