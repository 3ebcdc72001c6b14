import QmlCodeModel.Proofs.Grammar.Source
import QmlCodeModel.Proofs.Halving
import QmlCodeModel.Proofs.Tree.Layout
import QmlCodeModel.Ranges.Basic

/-! The ranges of a sound tree nest: those side by side do not overlap, and a range that is not empty lies
in the range that it hangs below. So the ranges around an offset are found by halving. -/
namespace QmlCodeModel

namespace RangeTree

/-- Ranges that nest. -/
inductive Nested : RangeTree → Prop
  | mk {range : Range} {inner : List RangeTree}
    (apart : inner.Pairwise fun i j => i.range.span.stop ≤ j.range.span.start)
    (start : ∀ i ∈ inner, range.span.start ≤ i.range.span.start)
    (stop : ∀ i ∈ inner, i.range.span.start < i.range.span.stop → i.range.span.stop ≤ range.span.stop)
    (le : ∀ i ∈ inner, i.range.span.start ≤ i.range.span.stop)
    (nested : ∀ i ∈ inner, i.Nested) : Nested (.mk range inner)

end RangeTree

/-- Nested ranges side by side, from an offset on; those that are not empty end at `last` or before. -/
structure Forest (front last : Nat) (trees : List RangeTree) : Prop where
  start : ∀ t ∈ trees, front ≤ t.range.span.start
  le : ∀ t ∈ trees, t.range.span.start ≤ t.range.span.stop
  stop : ∀ t ∈ trees, t.range.span.start < t.range.span.stop → t.range.span.stop ≤ last
  apart : trees.Pairwise fun t u => t.range.span.stop ≤ u.range.span.start
  nested : ∀ t ∈ trees, t.Nested

namespace Forest

variable {front last : Nat} {trees : List RangeTree} {range : Range}

/-- A range around a forest. -/
lemma around (h : Forest range.span.start range.span.stop trees) (hle : range.span.start ≤ range.span.stop)
    (hstart : front ≤ range.span.start)
    (hstop : range.span.start < range.span.stop → range.span.stop ≤ last) :
    Forest front last [.mk range trees] := by
  refine ⟨?_,?_,?_,List.pairwise_singleton _ _,?_⟩
  · simpa [RangeTree.range] using hstart
  · simpa [RangeTree.range] using hle
  · simpa [RangeTree.range] using hstop
  · simpa using RangeTree.Nested.mk h.apart h.start h.stop h.le h.nested

lemma widen {front' : Nat} (h : Forest front last trees) (hfront : front' ≤ front) :
    Forest front' last trees :=
  ⟨fun t ht => Nat.le_trans hfront (h.start t ht),h.le,h.stop,h.apart,h.nested⟩

/-- The end matters only where there is something between. -/
lemma extend {last' : Nat} (h : Forest front last trees) (hlast : front < last → last ≤ last') :
    Forest front last' trees := by
  refine ⟨h.start,h.le,fun t ht hlt => ?_,h.apart,h.nested⟩
  have hstart := h.start t ht
  have hstop := h.stop t ht hlt
  have := hlast (by omega)
  omega

end Forest

namespace Node

/-- The ranges below a node, without its own. -/
def innerTrees (n : Node) : List RangeTree := n.children.flatMap rangeTrees

lemma rangeTrees_eq (n : Node) : n.rangeTrees = match n.range? with
    | some range => [.mk range n.innerTrees]
    | none => n.innerTrees := by
  rw [rangeTrees]
  simp only [List.flatMap_subtype,List.unattach_attach]
  rfl

/-- The ranges at and below a node lie in its span and before all that comes after it. -/
structure RangesSound (n : Node) : Prop where
  forest (last : Nat) (tight : n.Tight last) : Forest n.span.start last n.rangeTrees
  below (stop : Nat) (below : n.Below stop) : ∀ t ∈ n.rangeTrees, t.range.span.stop ≤ stop

/-- The ranges of nodes side by side. -/
lemma forest_children {front last : Nat} {nodes : List Node} (start : ∀ c ∈ nodes, front ≤ c.span.start)
    (tight : ∀ c ∈ nodes, c.Tight last) (apart : nodes.Pairwise fun c d => c.Below d.span.start)
    (h : ∀ c ∈ nodes, c.RangesSound) : Forest front last (nodes.flatMap rangeTrees) := by
  have forest (c : Node) (hc : c ∈ nodes) := (h c hc).forest last (tight c hc)
  refine ⟨?_,?_,?_,?_,?_⟩
  · intro t ht
    obtain ⟨c,hc,ht⟩ := List.mem_flatMap.mp ht
    exact Nat.le_trans (start c hc) ((forest c hc).start t ht)
  · intro t ht
    obtain ⟨c,hc,ht⟩ := List.mem_flatMap.mp ht
    exact (forest c hc).le t ht
  · intro t ht
    obtain ⟨c,hc,ht⟩ := List.mem_flatMap.mp ht
    exact (forest c hc).stop t ht
  · refine List.pairwise_flatMap.mpr ⟨fun c hc => (forest c hc).apart,?_⟩
    refine apart.imp_of_mem fun {c d} hc hd hcd t ht u hu => ?_
    exact Nat.le_trans ((h c hc).below _ hcd t ht) ((forest d hd).start u hu)
  · intro t ht
    obtain ⟨c,hc,ht⟩ := List.mem_flatMap.mp ht
    exact (forest c hc).nested t ht

lemma innerTrees_singleton {id : Nat} {span : Span} {kind : Kind Node} {c : Node}
    (h : kind.children = [c]) : (mk id span kind).innerTrees = c.rangeTrees := by
  simp [innerTrees,children,Node.kind,h]

/-- A node that ends with its last token, as scripts and elements may not. -/
def Compact (n : Node) : Prop :=
  ∀ last, n.Tight last → n.span.start < n.span.stop → n.span.stop ≤ last

lemma compact_of_isBody {n : Node} (h : n.kind.isBody) : n.Compact := by
  cases n with
  | mk id span kind =>
    refine fun last => (tight_span ?_ ?_).mp
    · rintro _ _ rfl
      exact absurd h Bool.false_ne_true
    · rintro _ rfl
      exact absurd h Bool.false_ne_true

/-- A range that goes from one child to its end. -/
lemma rangesSound_of_child {n c : Node} {range : Range} (hn : n.rangeTrees = [.mk range c.rangeTrees])
    (hrange : range.span = c.span) (hc : c.RangesSound) (hsound : c.Sound)
    (hstart : n.span.start ≤ c.span.start) (hcompact : c.Compact)
    (htight : ∀ last, n.Tight last → c.Tight last) (hmem : c ∈ n.children) : n.RangesSound := by
  refine ⟨fun last hlast => ?_,fun stop hstop t ht => ?_⟩
  · rw [hn]
    have hforest := hc.forest _ hsound.tight_self
    rw [← hrange] at hforest
    refine hforest.around (hrange ▸ hsound.span_le) (hrange ▸ hstart) ?_
    exact hrange ▸ hcompact last (htight last hlast)
  · rw [hn,List.mem_singleton] at ht
    rw [ht]
    cases hstop with
    | mk self children => exact hrange ▸ (children c hmem).stop_le

/-- A node whose ranges are those of one child. -/
lemma rangesSound_of_only {n c : Node} (hn : n.rangeTrees = c.rangeTrees) (hc : c.RangesSound)
    (hstart : n.span.start ≤ c.span.start) (htight : ∀ last, n.Tight last → c.Tight last)
    (hmem : c ∈ n.children) : n.RangesSound := by
  refine ⟨fun last hlast => ?_,fun stop hstop t ht => ?_⟩
  · rw [hn]
    exact (hc.forest last (htight last hlast)).widen hstart
  · cases hstop with
    | mk self children => exact hc.below stop (children c hmem) t (hn ▸ ht)

section

variable {id front last : Nat} {span : Span} {kind : Kind Node} (le : span.start ≤ span.stop)
  (start : ∀ c ∈ kind.children, front ≤ c.span.start) (tight : ∀ c ∈ kind.children, c.Tight last)
  (apart : kind.children.Pairwise fun c d => c.Below d.span.start)
  (sound : ∀ c ∈ kind.children, c.Sound) (ih : ∀ c ∈ kind.children, c.RangesSound)
  (hspan : span = ⟨front, max last front⟩) (hscript : ∀ name x, kind ≠ .scriptBinding name x)
  (helement : ∀ x, kind ≠ .sourceElement x)

include ih in
lemma below_children {stop : Nat} (hstop : (mk id span kind).Below stop) :
    ∀ t ∈ kind.children.flatMap rangeTrees, t.range.span.stop ≤ stop := by
  intro t ht
  obtain ⟨c,hc,ht⟩ := List.mem_flatMap.mp ht
  cases hstop with
  | mk self children => exact (ih c hc).below stop (children c hc) t ht

include hspan hscript helement in
/-- The last token of a layer comes before what the layer comes before. -/
lemma last_le_of_tight {last' : Nat} (h : (mk id span kind).Tight last') (hlt : front < last) :
    last ≤ last' := by
  have hstop := (tight_span hscript helement).mp h
  rw [hspan,Nat.max_eq_left (Nat.le_of_lt hlt)] at hstop
  exact hstop hlt

include start tight apart ih hspan hscript helement in
/-- A layer without a range of its own. -/
lemma rangesSound_of_none (h : (mk id span kind).range? = none) : (mk id span kind).RangesSound := by
  have htrees : (mk id span kind).rangeTrees = kind.children.flatMap rangeTrees := by
    rw [rangeTrees_eq,h]
    rfl
  refine ⟨fun last' hlast => ?_,fun stop hstop => htrees ▸ below_children ih hstop⟩
  rw [htrees,hspan]
  refine (forest_children start tight apart ih).extend fun hlt => ?_
  exact last_le_of_tight hspan hscript helement hlast hlt

include le start tight apart ih hspan hscript helement in
/-- A layer with a range that is its span. -/
lemma rangesSound_of_own {range : Range} (h : (mk id span kind).range? = some range)
    (hrange : range.span = span) : (mk id span kind).RangesSound := by
  have htrees : (mk id span kind).rangeTrees = [.mk range (kind.children.flatMap rangeTrees)] := by
    rw [rangeTrees_eq,h]
    rfl
  refine ⟨fun last' hlast => ?_,fun stop hstop => ?_⟩
  · rw [htrees]
    refine Forest.around ?_ (hrange ▸ le) (Nat.le_of_eq (by rw [hrange]; rfl)) ?_
    · rw [hrange,hspan]
      exact (forest_children start tight apart ih).extend fun _ => Nat.le_max_left _ _
    · exact hrange ▸ (tight_span hscript helement).mp hlast
  · have hle : span.stop ≤ stop := hstop.stop_le
    rw [htrees]
    simpa [RangeTree.range,hrange] using hle

include tight sound ih hspan hscript helement in
/-- An object with its body. The tokens of the body go as far as those of the object. -/
lemma rangesSound_of_body {init : Node} {range : Range} (hkind : kind.children = [init])
    (hlt : front < last) (hinit : front < init.span.start) (hbody : init.kind.isBody)
    (h : (mk id span kind).range? = some range) (hrange : range.span = init.span) :
    (mk id span kind).RangesSound := by
  have hmem : init ∈ kind.children := hkind ▸ List.mem_singleton_self init
  have htrees : (mk id span kind).rangeTrees = [.mk range init.rangeTrees] := by
    rw [rangeTrees_eq,h,innerTrees_singleton hkind]
  refine rangesSound_of_child htrees hrange (ih init hmem) (sound init hmem) ?_ (compact_of_isBody hbody)
    (fun last' hlast => (tight init hmem).mono ?_) hmem
  · rw [hspan]
    exact Nat.le_of_lt hinit
  · exact last_le_of_tight hspan hscript helement hlast hlt

end

/-- An array with its members in brackets, which end with it. -/
lemma rangesSound_of_array {id front last : Nat} {span brackets : Span} {name : QualifiedName}
    {members : List Node} (hspan : span = ⟨front, last⟩) (hopen : front ≤ brackets.start)
    (hclose : brackets.start < brackets.stop) (hlast : brackets.stop = last)
    (start : ∀ c ∈ members, brackets.start ≤ c.span.start) (tight : ∀ c ∈ members, c.Tight last)
    (apart : members.Pairwise fun c d => c.Below d.span.start) (ih : ∀ c ∈ members, c.RangesSound) :
    (mk id span (.arrayBinding name members brackets)).RangesSound := by
  have htrees : (mk id span (.arrayBinding name members brackets)).rangeTrees =
      [.mk ⟨brackets, id, .arrayBinding⟩ (members.flatMap rangeTrees)] := by
    rw [rangeTrees_eq]
    rfl
  refine ⟨fun last' hlast' => ?_,fun stop hstop => ?_⟩
  · rw [htrees]
    refine Forest.around ?_ (Nat.le_of_lt hclose) (hspan ▸ hopen) fun _ => ?_
    · simp only [hlast]
      exact forest_children start tight apart ih
    · have := (tight_span (by simp) (by simp)).mp hlast'
      rw [hspan] at this
      simp only at this ⊢
      omega
  · have := hstop.stop_le
    rw [htrees]
    simp only [List.mem_singleton,forall_eq,RangeTree.range]
    rw [hspan] at this
    exact hlast ▸ this

/-- A script with the ranges of its statement, and a range of its own if that is a block. -/
lemma rangesSound_of_script {id front : Nat} {name : QualifiedName} {x : Node}
    (hstart : front < x.span.start) (sound : x.Sound) (ih : x.RangesSound) :
    (mk id ⟨front, x.span.stop⟩ (.scriptBinding name x)).RangesSound := by
  have hinner : (mk id ⟨front, x.span.stop⟩ (.scriptBinding name x)).innerTrees = x.rangeTrees :=
    innerTrees_singleton rfl
  have hmem : x ∈ (mk id ⟨front, x.span.stop⟩ (.scriptBinding name x)).children :=
    List.mem_singleton_self x
  have htight (last : Nat) (h : (mk id ⟨front, x.span.stop⟩ (.scriptBinding name x)).Tight last) :
      x.Tight last := (tight_script.mp h).2
  cases hkind : x.kind
  case block statements =>
    have htrees : (mk id ⟨front, x.span.stop⟩ (.scriptBinding name x)).rangeTrees =
        [.mk ⟨x.span, id, .scriptBlock⟩ x.rangeTrees] := by
      rw [rangeTrees_eq,hinner]
      cases x
      cases hkind
      rfl
    refine rangesSound_of_child htrees rfl ih sound (Nat.le_of_lt hstart) ?_ htight hmem
    cases x
    cases hkind
    exact fun last => (tight_span (by simp) (by simp)).mp
  all_goals
    refine rangesSound_of_only ?_ ih (Nat.le_of_lt hstart) htight hmem
    rw [rangeTrees_eq,hinner]
    cases x
    cases hkind
    rfl

/-- The ranges of the nodes in a sound tree nest. -/
theorem rangesSound_of_sound {n : Node} (h : n.Sound) : n.RangesSound := by
  induction h with
  | @mk id span kind front last placed le start tight apart named sound ih =>
    cases kind
    case objectDefinition typeName init =>
      obtain ⟨hspan,hlt,-,hinit,hbody⟩ := placed
      rw [← Nat.max_eq_left (Nat.le_of_lt hlt)] at hspan
      exact rangesSound_of_body tight sound ih hspan (by simp) (by simp) rfl hlt hinit hbody rfl rfl
    case objectBinding name typeName init on =>
      obtain ⟨hspan,hlt,-,-,hinit,hbody,-⟩ := placed
      rw [← Nat.max_eq_left (Nat.le_of_lt hlt)] at hspan
      exact rangesSound_of_body tight sound ih hspan (by simp) (by simp) rfl hlt hinit hbody rfl rfl
    case arrayBinding name members brackets =>
      obtain ⟨hspan,hopen,hclose,hlast,hstart⟩ := placed
      exact rangesSound_of_array hspan hopen hclose hlast hstart tight apart ih
    case scriptBinding name x =>
      obtain ⟨rfl,-,-,-,hstart⟩ := placed
      exact rangesSound_of_script hstart (sound x (List.mem_singleton_self x))
        (ih x (List.mem_singleton_self x))
    case sourceElement x =>
      cases placed
      have hmem := List.mem_singleton_self x
      refine rangesSound_of_only ?_ (ih x hmem) (Nat.le_refl _) (fun last => tight_element.mp) hmem
      rw [rangeTrees_eq,innerTrees_singleton rfl]
      rfl
    case functionDeclaration parts =>
      exact rangesSound_of_own le start tight apart ih placed (by simp) (by simp) rfl rfl
    case functionExpression parts =>
      exact rangesSound_of_own le start tight apart ih placed (by simp) (by simp) rfl rfl
    case publicMember m =>
      exact rangesSound_of_none start tight apart ih placed.1 (by simp) (by simp) rfl
    all_goals exact rangesSound_of_none start tight apart ih placed (by simp) (by simp) rfl

end Node

end QmlCodeModel

/-! Halving every level finds all the ranges around an offset, and no others. -/
namespace QmlCodeModel

namespace Forest

variable {front last offset : Nat} {level : List RangeTree} {t u : RangeTree}

/-- The range that contains an offset is found by halving. -/
lemma findInLevel_eq (h : Forest front last level) (ht : t ∈ level)
    (hcontains : t.range.span.contains offset) : RangeTree.findInLevel level offset = some t := by
  let test (u : RangeTree) : Bool := u.range.span.start ≤ offset
  obtain ⟨i,hi⟩ := List.mem_iff_getElem?.mp ht
  obtain ⟨hstart,hstop⟩ := Span.contains_iff.mp hcontains
  have apart {j k : Nat} {u v : RangeTree} (hlt : j < k) (hj : level[j]? = some u)
      (hk : level[k]? = some v) : u.range.span.stop ≤ v.range.span.start := by
    obtain ⟨hj',rfl⟩ := List.getElem?_eq_some_iff.mp hj
    obtain ⟨hk',rfl⟩ := List.getElem?_eq_some_iff.mp hk
    exact List.pairwise_iff_getElem.mp h.apart j k hj' hk' hlt
  have passes {j : Nat} (hpasses : Passes test level j) :
      ∃ u, level[j]? = some u ∧ u.range.span.start ≤ offset := by
    simpa [Passes,test,Option.any_eq_true] using hpasses
  have hdown (j k : Nat) (hle : j ≤ k) (hk : Passes test level k) : Passes test level j := by
    obtain rfl | hlt := Nat.eq_or_lt_of_le hle
    · exact hk
    obtain ⟨v,hv,hstart⟩ := passes hk
    obtain ⟨hk,-⟩ := List.getElem?_eq_some_iff.mp hv
    have hj := List.getElem?_eq_getElem (Nat.lt_trans hlt hk)
    have := h.le _ (List.mem_of_getElem? hj)
    have := apart hlt hj hv
    simp only [Passes,hj,Option.any_some,test,decide_eq_true_eq]
    omega
  have hlast := halve_last 0 level.length hdown (.inl rfl) fun j hj hpasses => by
    obtain ⟨u,hu,-⟩ := passes hpasses
    have := (List.getElem?_eq_some_iff.mp hu).1
    omega
  have hfound : halve test level 0 level.length = i := by
    obtain hlt | heq | hlt := Nat.lt_trichotomy (halve test level 0 level.length) i
    · refine absurd ?_ (hlast.2 i hlt)
      simpa [Passes,hi,test] using hstart
    · exact heq
    · obtain ⟨u,hu,hle⟩ := passes (hlast.1.resolve_left (by omega))
      have := apart hlt hi hu
      omega
  simp only [RangeTree.findInLevel]
  change Option.filter _ level[halve test level 0 level.length]? = _
  rw [hfound,hi,Option.filter_some,if_pos hcontains]

end Forest

namespace RangeTree

variable {t : RangeTree} {r : Range} {offset : Nat}

lemma toList_eq (t : RangeTree) : t.toList = t.range :: t.inner.flatMap toList := by
  rw [toList]
  simp only [List.flatMap_subtype,List.unattach_attach]

lemma Nested.forest (h : t.Nested) : Forest t.range.span.start t.range.span.stop t.inner := by
  cases h with
  | mk apart start stop le nested => exact ⟨start,le,stop,apart,nested⟩

/-- Of the ranges that hang below another, those that contain an offset lie in it. -/
lemma Nested.within (h : t.Nested) (hr : r ∈ t.toList) (hcontains : r.span.contains offset) :
    t.range.span.start ≤ r.span.start ∧ r.span.stop ≤ t.range.span.stop := by
  induction h with
  | @mk range inner apart start stop le nested ih =>
    rw [toList_eq] at hr
    obtain rfl | hr := List.mem_cons.mp hr
    · exact ⟨Nat.le_refl _,Nat.le_refl _⟩
    obtain ⟨i,hi,hr⟩ := List.mem_flatMap.mp hr
    obtain ⟨hstart,hstop⟩ := ih i hi hr
    obtain ⟨hfrom,hto⟩ := Span.contains_iff.mp hcontains
    have hge := start i hi
    have hle := stop i hi (by omega)
    exact ⟨Nat.le_trans hge hstart,Nat.le_trans hstop hle⟩

/-- Where a range does not contain an offset, no range below it does. -/
lemma Nested.filter_toList (h : t.Nested) (hnot : ¬t.range.span.contains offset) :
    t.toList.filter (·.span.contains offset) = [] := by
  refine List.filter_eq_nil_iff.mpr fun r hr hcontains => hnot ?_
  obtain ⟨hstart,hstop⟩ := h.within hr hcontains
  obtain ⟨hfrom,hto⟩ := Span.contains_iff.mp hcontains
  exact Span.contains_iff.mpr ⟨by omega,by omega⟩

end RangeTree

namespace Forest

variable {front last offset : Nat} {level : List RangeTree} {t : RangeTree}

lemma filter_eq_nil (h : ∀ t ∈ level, t.Nested) (hnot : ∀ t ∈ level, ¬t.range.span.contains offset) :
    (level.flatMap RangeTree.toList).filter (·.span.contains offset) = [] := by
  rw [List.filter_flatMap]
  exact List.flatMap_eq_nil_iff.mpr fun t ht => (h t ht).filter_toList (hnot t ht)

/-- At most one tree of a level has ranges that contain an offset. -/
lemma filter_eq (h : Forest front last level) (ht : t ∈ level)
    (hcontains : t.range.span.contains offset) :
    (level.flatMap RangeTree.toList).filter (·.span.contains offset) =
      t.toList.filter (·.span.contains offset) := by
  obtain ⟨before,after,rfl⟩ := List.append_of_mem ht
  obtain ⟨hstart,hstop⟩ := Span.contains_iff.mp hcontains
  obtain ⟨-,hafter,hbefore⟩ := List.pairwise_append.mp h.apart
  have hbefore : (before.flatMap RangeTree.toList).filter (·.span.contains offset) = [] := by
    refine filter_eq_nil (fun u hu => h.nested u (by simp [hu])) fun u hu hc => ?_
    have := hbefore u hu t (by simp)
    have := (Span.contains_iff.mp hc).2
    omega
  have hafter : (after.flatMap RangeTree.toList).filter (·.span.contains offset) = [] := by
    refine filter_eq_nil (fun u hu => h.nested u (by simp [hu])) fun u hu hc => ?_
    have := (List.pairwise_cons.mp hafter).1 u hu
    have := (Span.contains_iff.mp hc).1
    omega
  rw [List.flatMap_append,List.flatMap_cons,List.filter_append,List.filter_append,hbefore,hafter,
    List.nil_append,List.append_nil]

/-- The search through all levels finds the ranges that contain an offset. -/
theorem pathIn_eq (h : Forest front last level) : RangeTree.pathIn level offset =
    (level.flatMap RangeTree.toList).filter (·.span.contains offset) := by
  induction level using RangeTree.pathIn.induct offset generalizing front last with
  | case1 level t hfind ih =>
    have ht := RangeTree.mem_of_findInLevel hfind
    have hcontains : t.range.span.contains offset := by
      simp only [RangeTree.findInLevel,Option.filter_eq_some_iff] at hfind
      exact hfind.2
    rw [RangeTree.pathIn]
    split
    · rename_i u hu
      obtain rfl := Option.some.inj (hfind.symm.trans hu)
      rw [h.filter_eq ht hcontains,RangeTree.toList_eq,List.filter_cons,if_pos hcontains,
        ih (h.nested t ht).forest]
    · rename_i hnone
      rw [hfind] at hnone
      cases hnone
  | case2 level hfind =>
    have hnot (u : RangeTree) (hu : u ∈ level) : ¬u.range.span.contains offset := by
      intro hcontains
      rw [h.findInLevel_eq hu hcontains] at hfind
      cases hfind
    rw [filter_eq_nil h.nested hnot,RangeTree.pathIn]
    split
    · rename_i u hu
      rw [hfind] at hu
      cases hu
    · rfl

/-- The ranges around an offset lie in one another. -/
theorem pairwise_pathIn (h : Forest front last level) : (RangeTree.pathIn level offset).Pairwise
    fun r q => r.span.start ≤ q.span.start ∧ q.span.stop ≤ r.span.stop := by
  induction level using RangeTree.pathIn.induct offset generalizing front last with
  | case1 level t hfind ih =>
    have ht := h.nested t (RangeTree.mem_of_findInLevel hfind)
    rw [RangeTree.pathIn]
    split
    · rename_i u hu
      obtain rfl := Option.some.inj (hfind.symm.trans hu)
      refine List.pairwise_cons.mpr ⟨fun r hr => ?_,ih ht.forest⟩
      rw [ht.forest.pathIn_eq,List.mem_filter] at hr
      exact ht.within (RangeTree.toList_eq t ▸ List.mem_cons_of_mem _ hr.1) hr.2
    · exact .nil
  | case2 level hfind =>
    rw [RangeTree.pathIn]
    split
    · rename_i u hu
      rw [hfind] at hu
      cases hu
    · exact .nil

end Forest

namespace Ranges

/-- In the tree of a source, with errors or without, the ranges found around an offset are all those that
contain it, in their order. They lie in one another, and the closest is the last of them. -/
theorem path_eq_filter {form : SourceForm} {source : String} {p : Parse}
    (h : parse? form source = some p) (offset : Nat) :
    (ofRoot p.root).path offset = (ofRoot p.root).toList.filter (·.span.contains offset) ∧
    ((ofRoot p.root).path offset).Pairwise
      (fun r q => r.span.start ≤ q.span.start ∧ q.span.stop ≤ r.span.stop) ∧
    (ofRoot p.root).closest? offset =
      ((ofRoot p.root).toList.filter (·.span.contains offset)).getLast? ∧
    ((ofRoot p.root).closest? offset = none ↔
      ∀ r ∈ (ofRoot p.root).toList, ¬r.span.contains offset) := by
  have hsound := Grammar.sound_of_parse? h
  have hforest := (Node.rangesSound_of_sound hsound).forest _ hsound.tight_self
  have hpath : (ofRoot p.root).path offset =
      (ofRoot p.root).toList.filter (·.span.contains offset) := hforest.pathIn_eq
  refine ⟨hpath,hforest.pairwise_pathIn,?_,?_⟩
  · rw [closest?,hpath]
  · rw [closest?,hpath,List.getLast?_eq_none_iff,List.filter_eq_nil_iff]

/-- The block in an object, both of them open at the end of the source. -/
theorem path_in_unfinished : ∃ p, parse? .qml "A\x7bb:\x7b" = some p ∧
    ((ofRoot p.root).path 4).length = 2 ∧
    (ofRoot p.root).path 4 = (ofRoot p.root).toList.filter (·.span.contains 4) ∧
    ∃ r, (ofRoot p.root).closest? 4 = some r ∧ r.span.contains 4 := by
  have h : (parse? .qml "A\x7bb:\x7b").any fun p => ((ofRoot p.root).path 4).length = 2 := by
    decide +kernel
  obtain ⟨p,hp,hlength⟩ := (Option.any_eq_true _ _).mp h
  obtain ⟨hpath,-,-,hclosest⟩ := path_eq_filter hp 4
  refine ⟨p,hp,of_decide_eq_true hlength,hpath,?_⟩
  obtain ⟨r,hr⟩ : ∃ r, (ofRoot p.root).closest? 4 = some r := by
    refine Option.ne_none_iff_exists'.mp fun hnone => ?_
    rw [hpath,List.filter_eq_nil_iff.mpr (hclosest.mp hnone)] at hlength
    exact absurd (of_decide_eq_true hlength) (by decide)
  have hmem := List.mem_of_getLast? (by rw [← hr,closest?])
  rw [hpath] at hmem
  exact ⟨r,hr,(List.mem_filter.mp hmem).2⟩

end Ranges
end QmlCodeModel
