import Mathlib.Data.List.Nodup
import Mathlib.Data.List.Pairwise
import QmlCodeModel.Proofs.Grammar.Objects
import QmlCodeModel.Proofs.Grammar.Spans
import QmlCodeModel.Proofs.Symbols.Visits

/-! The scopes of the functions of a source. Every function has one, in which its parameters are declared, but
for the functions that hang in a pattern which a function or a handler binds: these have none. -/
namespace QmlCodeModel

namespace Node

/-- A node that starts before all that hangs below it. -/
def Headed (n : Node) : Prop := n.span.Heads n.children

/-- A layer of a document consists of headers, of scripts, and of parts that are layers of documents. -/
structure Splits (n : Node) (headers scripts parts : List Node) : Prop where
  otherParts : n.otherParts = headers ++ scripts ++ parts
  heads : n.heads = scripts.flatMap scriptHeads ++ parts.flatMap heads
  other : n.isFunction = false
  leading : n.kind.Shaped n.span → ∀ c ∈ headers, c.kind.isHeader
  opened : n.kind.Shaped n.span → ∀ c ∈ scripts, c.Opened

variable {n c f x y : Node}

lemma splits_parts {parts : List Node} (hother : n.otherParts = parts) (hheads : n.heads = parts.flatMap heads)
    (h : n.isFunction = false) : n.Splits [] [] parts :=
  ⟨hother,hheads,h,fun _ => List.forall_mem_nil _,fun _ => List.forall_mem_nil _⟩

lemma heads_or_splits (n : Node) : n.heads = n.functions ∨ ∃ headers scripts parts, n.Splits headers scripts parts := by
  obtain ⟨id,span,kind⟩ := n
  have hheads := heads.eq_def (.mk id span kind)
  cases kind
  case document headers members =>
    refine .inr ⟨headers,[],members,by simp [otherParts,kind,children,Kind.children],?_,rfl,fun h => h,
      fun _ => List.forall_mem_nil _⟩
    rw [hheads]
    exact flatMap_attach_heads members
  case objectDefinition typeName init =>
    refine .inr ⟨[],[],[init],splits_parts rfl ?_ rfl⟩
    rw [hheads]
    exact (List.flatMap_singleton heads init).symm
  case objectBinding name typeName init on =>
    refine .inr ⟨[],[],[init],splits_parts rfl ?_ rfl⟩
    rw [hheads]
    exact (List.flatMap_singleton heads init).symm
  case objectInitializer members =>
    refine .inr ⟨[],[],members,splits_parts rfl ?_ rfl⟩
    rw [hheads]
    exact flatMap_attach_heads members
  case arrayBinding name members brackets =>
    refine .inr ⟨[],[],members,splits_parts rfl ?_ rfl⟩
    rw [hheads]
    exact flatMap_attach_heads members
  case scriptBinding name statement =>
    refine .inr ⟨[],[statement],[],rfl,?_,rfl,fun _ => List.forall_mem_nil _,
      fun h => List.forall_mem_singleton.mpr h⟩
    rw [hheads]
    simp [kind]
  case publicMember m =>
    refine .inr ⟨[],m.statement.toList,m.binding.toList,rfl,?_,rfl,fun _ => List.forall_mem_nil _,
      fun h c hc => h c (Option.mem_toList.mp hc)⟩
    rw [hheads]
    exact congrArg (_ ++ ·) (flatMap_attach_heads m.binding.toList)
  case sourceElement element =>
    refine .inl (hheads.trans ?_)
    exact (functions_of_not_isFunction (n := .mk id span (.sourceElement element)) rfl).symm ▸
      (List.flatMap_singleton functions element).symm
  all_goals exact .inl hheads

/-- There are no functions in the headers of a document. -/
lemma functions_of_isHeader (h : c.kind.isHeader) : c.functions = [] := by
  obtain ⟨id,span,kind⟩ := c
  cases kind
  case pragma name => exact functions_of_not_isFunction (n := .mk id span (.pragma name)) rfl
  case importing target version qualifier =>
    exact functions_of_not_isFunction (n := .mk id span (.importing target version qualifier)) rfl
  case error => exact functions_of_not_isFunction (n := .mk id span .error) rfl
  all_goals exact absurd h Bool.false_ne_true

lemma functions_sublist (n : Node) : n.functions.Sublist n.seen := List.filter_sublist

lemma scriptHeads_sublist (n : Node) : n.scriptHeads.Sublist n.seen := by
  obtain ⟨id,span,kind⟩ := n
  cases kind
  case block statements =>
    rw [seen_eq]
    exact (List.Sublist.flatMap_right statements fun c _ => c.functions_sublist).cons_cons _
  all_goals exact functions_sublist _

lemma functions_sub_scriptHeads (n : Node) : n.functions ⊆ n.scriptHeads := by
  obtain ⟨id,span,kind⟩ := n
  cases kind
  case block statements =>
    rw [functions_of_not_isFunction rfl]
    exact List.subset_cons_self _ _
  all_goals exact List.Subset.refl _

/-- No node is a head twice, since none is seen twice. -/
lemma heads_sublist (n : Node) : n.heads.Sublist n.seen := by
  induction n using Node.walk.induct with
  | case1 n ih =>
    obtain hheads | ⟨headers,scripts,parts,h⟩ := n.heads_or_splits
    · rw [hheads]
      exact n.functions_sublist
    · have hscripts : (scripts.flatMap scriptHeads).Sublist (scripts.flatMap seen) :=
        List.Sublist.flatMap_right _ fun c _ => c.scriptHeads_sublist
      have hparts : (parts.flatMap heads).Sublist (parts.flatMap seen) := by
        refine List.Sublist.flatMap_right _ fun c hc => ih c (mem_children_of_mem_otherParts ?_)
        rw [h.otherParts]
        exact List.mem_append_right _ hc
      rw [h.heads,seen_eq,h.otherParts,List.flatMap_append,List.flatMap_append,List.append_assoc]
      exact ((hscripts.append hparts).trans (List.sublist_append_right _ _)).cons n

/-- Every function that is seen is a head. -/
lemma functions_sub_heads (h : ∀ x ∈ n.walk, x.kind.Shaped x.span) : n.functions ⊆ n.heads := by
  induction n using Node.walk.induct with
  | case1 n ih =>
    obtain hheads | ⟨headers,scripts,parts,hsplits⟩ := n.heads_or_splits
    · rw [hheads]
      exact List.Subset.refl _
    · have hheaders : headers.flatMap functions = [] :=
        List.flatMap_eq_nil_iff.mpr fun c hc => functions_of_isHeader (hsplits.leading (h n n.mem_walk_self) c hc)
      rw [functions_of_not_isFunction hsplits.other,hsplits.otherParts,hsplits.heads,List.flatMap_append,
        List.flatMap_append,hheaders,List.nil_append]
      have hscripts : scripts.flatMap functions ⊆ scripts.flatMap scriptHeads := by
        intro f hf
        obtain ⟨c,hc,hf⟩ := List.mem_flatMap.mp hf
        exact List.mem_flatMap.mpr ⟨c,hc,c.functions_sub_scriptHeads hf⟩
      have hparts : parts.flatMap functions ⊆ parts.flatMap heads := by
        intro f hf
        obtain ⟨c,hc,hf⟩ := List.mem_flatMap.mp hf
        have hmem : c ∈ n.children := mem_children_of_mem_otherParts (by simp [hsplits.otherParts,hc])
        exact List.mem_flatMap.mpr ⟨c,hc,ih c hmem (fun x hx => h x (mem_walk_of_mem_children hmem hx)) hf⟩
      refine List.append_subset.mpr ⟨fun f hf => ?_,fun f hf => ?_⟩
      · exact List.mem_append_left _ (hscripts hf)
      · exact List.mem_append_right _ (hparts hf)

lemma headed_of_isFunction (h : n.kind.Shaped n.span) (hfunction : n.isFunction) : n.Headed := by
  obtain ⟨id,span,kind⟩ := n
  cases kind
  case functionDeclaration => exact h
  case functionExpression => exact h
  all_goals exact absurd hfunction Bool.false_ne_true

lemma headed_of_mem_functions (h : ∀ x ∈ n.walk, x.kind.Shaped x.span) (hf : f ∈ n.functions) : f.Headed := by
  obtain ⟨hseen,hfunction⟩ := List.mem_filter.mp hf
  exact headed_of_isFunction (h f (n.walk_perm.symm.subset (List.mem_append_left _ hseen))) hfunction

/-- Every head starts before all that hangs below it. -/
lemma headed_of_mem_heads (h : ∀ x ∈ n.walk, x.kind.Shaped x.span) (hf : f ∈ n.heads) : f.Headed := by
  induction n using Node.walk.induct with
  | case1 n ih =>
    obtain hheads | ⟨headers,scripts,parts,hsplits⟩ := n.heads_or_splits
    · rw [hheads] at hf
      exact headed_of_mem_functions h hf
    · have hbelow {c : Node} (hc : c ∈ headers ++ scripts ++ parts) :
          c ∈ n.children ∧ ∀ x ∈ c.walk, x.kind.Shaped x.span := by
        have hmem := mem_children_of_mem_otherParts (hsplits.otherParts ▸ hc)
        exact ⟨hmem,fun x hx => h x (mem_walk_of_mem_children hmem hx)⟩
      rw [hsplits.heads] at hf
      obtain hf | hf := List.mem_append.mp hf
      · obtain ⟨c,hc,hf⟩ := List.mem_flatMap.mp hf
        have hopened := hsplits.opened (h n n.mem_walk_self) c hc
        have hshaped := (hbelow (c := c) (by simp [hc])).2
        obtain ⟨id,span,kind⟩ := c
        cases kind
        case block statements =>
          obtain rfl | hf := List.mem_cons.mp hf
          · exact hopened rfl
          · obtain ⟨x,hx,hf⟩ := List.mem_flatMap.mp hf
            exact headed_of_mem_functions (fun y hy => hshaped y (mem_walk_of_mem_children hx hy)) hf
        all_goals exact headed_of_mem_functions hshaped hf
      · obtain ⟨c,hc,hf⟩ := List.mem_flatMap.mp hf
        obtain ⟨hmem,hshaped⟩ := hbelow (c := c) (by simp [hc])
        exact ih c hmem hshaped hf

/-- Of two nodes that start before all that hangs below them, neither has the span of the other. -/
lemma Sound.eq_of_span (h : n.Sound) (hx : x ∈ n.walk) (hy : y ∈ n.walk) (hxhead : x.Headed) (hyhead : y.Headed)
    (hspan : x.span = y.span) : x = y := by
  induction n using Node.walk.induct with
  | case1 n ih =>
    have hlater {x y c : Node} (hx : n = x) (hxhead : x.Headed) (hc : c ∈ n.children) (hy : y ∈ c.walk) :
        x.span ≠ y.span := by
      subst hx
      have hstart := hxhead.later c hc
      have := (h.of_mem_children hc).start_le hy
      intro hspan
      rw [hspan] at hstart
      omega
    have hbeside {x y c d : Node} (hc : c.Below d.span.start) (hx : x ∈ c.walk) (hd : d ∈ n.children) (hy : y ∈ d.walk)
        (hxhead : x.Headed) : x.span ≠ y.span := by
      have hstop := (hc.of_mem_walk hx).stop_le
      have hstart := (h.of_mem_children hd).start_le hy
      have := hxhead.lt
      intro hspan
      rw [← hspan] at hstart
      omega
    rw [walk_eq] at hx hy
    obtain hx | hx := List.mem_cons.mp hx <;> obtain hy | hy := List.mem_cons.mp hy
    · rw [hx,hy]
    · obtain ⟨c,hc,hy⟩ := List.mem_flatMap.mp hy
      exact absurd hspan (hlater hx.symm hxhead hc hy)
    · obtain ⟨c,hc,hx⟩ := List.mem_flatMap.mp hx
      exact absurd hspan.symm (hlater hy.symm hyhead hc hx)
    · obtain ⟨c,hc,hx⟩ := List.mem_flatMap.mp hx
      obtain ⟨d,hd,hy⟩ := List.mem_flatMap.mp hy
      by_cases heq : c = d
      · subst heq
        exact ih c hc (h.of_mem_children hc) hx hy
      · have hsymm : Std.Symm fun c d : Node => c.Below d.span.start ∨ d.Below c.span.start := ⟨fun _ _ => Or.symm⟩
        have hapart : n.children.Pairwise fun c d => c.Below d.span.start ∨ d.Below c.span.start := h.apart.imp .inl
        obtain hbelow | hbelow := hapart.forall hc hd heq
        · exact absurd hspan (hbeside hbelow hx hd hy hxhead)
        · exact absurd hspan.symm (hbeside hbelow hy hc hx hyhead)

end Node

namespace SymbolTables

variable {t : SymbolTables} {k : Nat} {span : Span} {ds : List Declaration}

/-- The scopes of functions with a span. -/
def functionScopes (t : SymbolTables) (span : Span) : List Scope :=
  t.scopes.toList.filter fun s => s.span == span && s.kind == .function

lemma length_functionScopes (t : SymbolTables) (span : Span) :
    (t.functionScopes span).length = t.functionSpans.count span := by
  rw [functionScopes,functionSpans,← List.filter_filter,← List.countP_eq_length_filter,List.count,List.countP_map]
  rfl

lemma Holds.mem_functionScopes (h : t.Holds k span ds) : ∃ s ∈ t.functionScopes span, ds ⊆ s.declarations := by
  obtain ⟨s,hs,hkind,hspan,hds⟩ := h
  refine ⟨s,List.mem_filter.mpr ⟨Array.mem_toList_iff.mpr (Array.mem_of_getElem? hs),?_⟩,hds⟩
  simp [hkind,hspan]

/-- The functions of a sound tree have a scope each exactly if they are seen. -/
theorem functionScopes_ofRoot {root f : Node} (hsound : root.Sound) (hnodup : root.walk.Nodup)
    (hshaped : ∀ x ∈ root.walk, x.kind.Shaped x.span) (hf : f ∈ root.walk) (hfunction : f.isFunction) :
    f ∈ root.seen ∧ (∃ s, (ofRoot root).functionScopes f.span = [s] ∧ f.parameters ⊆ s.declarations) ∨
      f ∉ root.seen ∧ (ofRoot root).functionScopes f.span = [] := by
  have hvisits := visits_member (t := openScope {} .global root.span none) hshaped none
  have hspans : (ofRoot root).functionSpans = root.heads.map Node.span := hvisits.spans
  have hmem {x : Node} (hx : x ∈ root.heads) : x ∈ root.walk :=
    root.walk_perm.symm.subset (List.mem_append_left _ (root.heads_sublist.subset hx))
  have hlength := (ofRoot root).length_functionScopes f.span
  rw [hspans] at hlength
  by_cases hseen : f ∈ root.seen
  · have hheads := Node.functions_sub_heads hshaped (List.mem_filter.mpr ⟨hseen,hfunction⟩)
    have hdistinct : (root.heads.map Node.span).Nodup := by
      refine List.Nodup.map_on (fun x hx y hy => ?_) ?_
      · exact hsound.eq_of_span (hmem hx) (hmem hy) (Node.headed_of_mem_heads hshaped hx)
          (Node.headed_of_mem_heads hshaped hy)
      · exact root.heads_sublist.nodup (List.nodup_append.mp (root.walk_perm.nodup hnodup)).1
    rw [List.count_eq_one_of_mem hdistinct (List.mem_map_of_mem hheads)] at hlength
    obtain ⟨k,hk⟩ := hvisits.entered f hheads
    obtain ⟨s,hs,hds⟩ := hk.mem_functionScopes
    obtain ⟨s',hs'⟩ := List.length_eq_one_iff.mp hlength
    obtain rfl := List.mem_singleton.mp (hs' ▸ hs)
    exact .inl ⟨hseen,s,hs',hds⟩
  · refine .inr ⟨hseen,List.eq_nil_of_length_eq_zero (hlength.trans (List.count_eq_zero.mpr fun h => hseen ?_))⟩
    obtain ⟨x,hx,hspan⟩ := List.mem_map.mp h
    obtain rfl := hsound.eq_of_span (hmem hx) hf (Node.headed_of_mem_heads hshaped hx)
      (Node.headed_of_isFunction (hshaped f hf) hfunction) hspan
    exact root.heads_sublist.subset hx

end SymbolTables

/-- Every function of a source has one scope with its span, in which all names that its parameters bind are declared
as parameters, unless it hangs in a pattern that the parameters of a function or a handler bind. Then it has none. -/
theorem function_scope_iff {form : SourceForm} {source : String} {p : Parse} {f : Node}
    (h : parse? form source = some p) (hf : f ∈ p.root.walk) (hfunction : f.isFunction) :
    ((∃ s, (SymbolTables.ofRoot p.root).functionScopes f.span = [s] ∧ ∀ d ∈ f.parameters, d ∈ s.declarations) ↔
      ¬p.root.PassesOver f) ∧
    ((SymbolTables.ofRoot p.root).functionScopes f.span = [] ↔ p.root.PassesOver f) := by
  have hnodup := (Grammar.nodup_of_parse? h).of_map
  have hseen := Node.mem_seen_iff hnodup hf
  have hscopes := SymbolTables.functionScopes_ofRoot (Grammar.sound_of_parse? h) hnodup
    (fun x hx => (Grammar.formed_of_parse? h x hx).shaped) hf hfunction
  obtain ⟨hmem,s,hone,hparameters⟩ | ⟨hmem,hnone⟩ := hscopes
  · refine ⟨iff_of_true ⟨s,hone,fun d hd => hparameters hd⟩ (hseen.mp hmem),iff_of_false ?_ (hseen.mp hmem)⟩
    simp [hone]
  · have hpassed : p.root.PassesOver f := not_not.mp fun h => hmem (hseen.mpr h)
    refine ⟨iff_of_false ?_ (not_not.mpr hpassed),iff_of_true hnone hpassed⟩
    simp [hnone]

/-- A function that is the default of a parameter. -/
theorem function_scope_iff_default : ∃ p f, parse? .program "function f(a = function(b)\x7b\x7d)\x7b\x7d" = some p ∧
    f ∈ p.root.walk ∧ f.isFunction ∧ f.span = ⟨15, 28⟩ ∧ ¬p.root.PassesOver f ∧
    ((∃ s, (SymbolTables.ofRoot p.root).functionScopes f.span = [s] ∧ ∀ d ∈ f.parameters, d ∈ s.declarations) ↔
      ¬p.root.PassesOver f) ∧
    ((SymbolTables.ofRoot p.root).functionScopes f.span = [] ↔ p.root.PassesOver f) := by
  have h : (parse? .program "function f(a = function(b)\x7b\x7d)\x7b\x7d").any fun p =>
      (p.root.walk.any fun f => f.isFunction && f.span == ⟨15, 28⟩) &&
        !((SymbolTables.ofRoot p.root).functionScopes ⟨15, 28⟩).isEmpty := by
    decide +kernel
  obtain ⟨p,hp,h⟩ := (Option.any_eq_true _ _).mp h
  obtain ⟨h,hscopes⟩ := Bool.and_eq_true_iff.mp h
  obtain ⟨f,hf,h⟩ := List.any_eq_true.mp h
  obtain ⟨hfunction,hspan⟩ := Bool.and_eq_true_iff.mp h
  rw [beq_iff_eq] at hspan
  have hiff := function_scope_iff hp hf hfunction
  refine ⟨p,f,hp,hf,hfunction,hspan,fun hpassed => ?_,hiff⟩
  rw [← hspan,hiff.2.mpr hpassed] at hscopes
  cases hscopes

/-- A function that is a default in a pattern among the parameters has no scope. -/
theorem function_scope_pattern : ∃ p f, parse? .program "function f([a = function()\x7b\x7d])\x7b\x7d" = some p ∧
    f ∈ p.root.walk ∧ f.isFunction ∧ (SymbolTables.ofRoot p.root).functionScopes f.span = [] := by
  have h : (parse? .program "function f([a = function()\x7b\x7d])\x7b\x7d").any fun p =>
      p.root.walk.any fun f => f.isFunction && ((SymbolTables.ofRoot p.root).functionScopes f.span).isEmpty := by
    decide +kernel
  obtain ⟨p,hp,h⟩ := (Option.any_eq_true _ _).mp h
  obtain ⟨f,hf,h⟩ := List.any_eq_true.mp h
  obtain ⟨hfunction,hscopes⟩ := Bool.and_eq_true_iff.mp h
  exact ⟨p,f,hp,hf,hfunction,List.isEmpty_iff.mp hscopes⟩

end QmlCodeModel
