import Mathlib.Data.List.Pairwise
import Mathlib.Order.Basic
import QmlCodeModel.Outline.Form
import QmlCodeModel.Proofs.Tree.Layout

/-! The outline of an object in a sound tree is laid out: its properties and objects stand side by side in
it, and so do theirs. -/
namespace QmlCodeModel

namespace Outline

/-- A property ends before an offset, as far as it holds something. -/
def Ends (p : OutlineProperty Outline) (offset : Nat) : Prop :=
  p.start < offset ∧ (p.child.isSome → p.stop ≤ offset)

/-- An outline whose parts do not overlap. One without a type is a list, which has no properties. What an object
holds stands behind its start, and what a list holds behind the start of the property that has it. -/
inductive Laid : Outline → Prop
  | mk {o : Outline} (le : o.span.start ≤ o.span.stop)
    (apart : o.properties.Pairwise fun p q => Ends p q.start)
    (siblings : o.children.Pairwise fun c d => c.span.stop ≤ d.span.start)
    (mixed : ∀ p ∈ o.properties, ∀ c ∈ o.children, Ends p c.span.start ∨ c.span.stop ≤ p.start)
    (marks : ∀ p ∈ o.properties, o.span.start < p.start ∧ Ends p o.span.stop)
    (named : ∀ p ∈ o.properties, p.name ≠ [])
    (around : ∀ p ∈ o.properties, ∀ c, p.child = some c → p.start ≤ c.span.start ∧ c.span.stop ≤ p.stop)
    (within : ∀ c ∈ o.children, o.span.start ≤ c.span.start ∧ c.span.stop ≤ o.span.stop)
    (typed : ∀ c ∈ o.children, c.typeName ≠ "") (untyped : o.typeName = "" → o.properties = [])
    (values : ∀ p ∈ o.properties, ∀ c, p.child = some c → c.Laid) (below : ∀ c ∈ o.children, c.Laid)
    (solid : ∀ c ∈ o.children, c.span.start < c.span.stop)
    (behind : o.typeName ≠ "" → ∀ c ∈ o.children, o.span.start < c.span.start)
    (lists : ∀ p ∈ o.properties, ∀ c, p.child = some c → c.typeName = "" → p.start < c.span.start) : Laid o

end Outline

def ValueForm.outline? : ValueForm → Option Outline
  | .script => none
  | .object g => some g.outline
  | .array node span members => some (.mk node "" span [] (members.map ObjectForm.outline))

def PropertyForm.outline (ownerType : String) (p : PropertyForm) : OutlineProperty Outline :=
  { name := p.name, ownerType, declaredType := p.declaredType, start := p.start
    valueStart := p.valueStart, stop := p.stop, child := p.value.outline? }

def MemberForm.property? (ownerType : String) : MemberForm → Option (OutlineProperty Outline)
  | .property p => some (p.outline ownerType)
  | .child _ => none

def MemberForm.child? : MemberForm → Option Outline
  | .child g => some g.outline
  | .property _ => none

lemma ObjectForm.outline_eq (f : ObjectForm) : f.outline = .mk f.node f.typeName f.span
    (f.members.filterMap (MemberForm.property? f.typeName)) (f.members.filterMap MemberForm.child?) := by
  have hproperties := List.filterMap_subtype (l := f.members.attach)
    (f := fun m => m.1.property? f.typeName) (g := MemberForm.property? f.typeName) fun _ _ => rfl
  have hchildren := List.filterMap_subtype (l := f.members.attach)
    (f := fun m => m.1.child?) (g := MemberForm.child?) fun _ _ => rfl
  rw [List.unattach_attach] at hproperties hchildren
  rw [ObjectForm.outline,← hproperties,← hchildren]
  congr 1
  · congr 1
    funext ⟨m,hm⟩
    cases m with
    | child g => rfl
    | property p =>
      obtain ⟨name,declaredType,start,valueStart,stop,value⟩ := p
      cases value with
      | script => rfl
      | object g => rfl
      | array node span objects =>
        simp [MemberForm.property?,PropertyForm.outline,ValueForm.outline?]
  · congr 1
    funext ⟨m,hm⟩
    cases m <;> rfl

/-! Objects and properties lie in the nodes that they are made from. -/

section

variable {n : Node} {f g : ObjectForm}

/-- An object that is a node. Its members stand behind its start and before its stop. -/
structure ObjectForm.Fits (f : ObjectForm) (n : Node) : Prop where
  start : n.span.start ≤ f.span.start
  stop : f.span.stop = n.span.stop
  lt : f.span.start < f.span.stop
  tight (last : Nat) : n.Tight last → f.span.stop ≤ last
  typed : f.typeName ≠ ""
  sound : f.initializer.Sound
  inside : f.span.start < f.initializer.span.start
  body : f.initializer.Tight f.span.stop

/-- An object of a sound tree. -/
def ObjectForm.Sound (f : ObjectForm) : Prop := ∃ n : Node, n.Sound ∧ n.objectForm? = some f

lemma Node.Sound.fits (h : n.Sound) (hf : n.objectForm? = some f) : f.Fits n := by
  cases h with
  | @mk id span kind front last placed le start tight apart named sound =>
    cases kind
    case objectDefinition typeName init =>
      cases hf
      obtain ⟨rfl,hlt,hjoined,hinit,-⟩ := placed
      have hmem : init ∈ (Kind.objectDefinition typeName init).children := List.mem_singleton_self init
      refine ⟨Nat.le_refl _,rfl,hlt,fun last' h => ?_,hjoined,sound init hmem,hinit,tight init hmem⟩
      exact (Node.tight_span (by simp) (by simp)).mp h hlt
    case objectBinding name typeName init on =>
      cases hf
      obtain ⟨rfl,hlt,-,hjoined,hinit,-,hon⟩ := placed
      have hmem : init ∈ (Kind.objectBinding name typeName init on).children := List.mem_singleton_self init
      have htight (last' : Nat) (h : (Node.mk id ⟨front, last⟩ (.objectBinding name typeName init on)).Tight
          last') : last ≤ last' := (Node.tight_span (by simp) (by simp)).mp h hlt
      cases on with
      | true => exact ⟨Nat.le_refl _,rfl,hlt,htight,hjoined,sound init hmem,hinit,tight init hmem⟩
      | false =>
        obtain ⟨-,htype,hbody,hlast⟩ := hon rfl
        exact ⟨Nat.le_of_lt htype,rfl,hlast,htight,hjoined,sound init hmem,hbody,tight init hmem⟩
    all_goals cases hf

/-! What a property holds stands between two offsets. -/

def ValueForm.Fits (start stop : Nat) : ValueForm → Prop
  | .script => True
  | .object g => start ≤ g.span.start ∧ g.span.stop ≤ stop ∧ g.Sound
  | .array _ span members =>
    start < span.start ∧ span.start ≤ span.stop ∧ span.stop ≤ stop ∧
      (members.Pairwise fun g h => g.span.stop ≤ h.span.start) ∧
      ∀ g ∈ members, span.start ≤ g.span.start ∧ g.span.stop ≤ span.stop ∧ g.Sound

/-- A property that is a member. -/
structure PropertyForm.Fits (p : PropertyForm) (n : Node) : Prop where
  start : n.span.start ≤ p.start
  lt : p.start < n.span.stop
  stop (stop : Nat) : n.Below stop → p.value.outline?.isSome → p.stop ≤ stop
  tight (last : Nat) : n.Tight last → p.start < last ∧ (p.value.outline?.isSome → p.stop ≤ last)
  named : p.name ≠ []
  value : p.value.Fits p.start p.stop

/-- Objects made from nodes side by side do not overlap. -/
lemma pairwise_objectForms {nodes : List Node} (apart : nodes.Pairwise fun c d => c.Below d.span.start)
    (sound : ∀ c ∈ nodes, c.Sound) :
    (nodes.filterMap Node.objectForm?).Pairwise fun g h => g.span.stop ≤ h.span.start := by
  refine List.pairwise_filterMap.mpr (apart.imp_of_mem fun {c d} hc hd hcd g hg h hh => ?_)
  have hgc := (sound c hc).fits hg
  have hhd := (sound d hd).fits hh
  rw [hgc.stop]
  exact Nat.le_trans hcd.stop_le hhd.start

/-- An array as the value of a property that starts at an offset before its brackets. -/
lemma arrayForm_fits {name : List String} {start : Nat} {declaredType : Option String}
    {p : PropertyForm} (h : n.Sound) (hp : n.arrayForm? name start declaredType = some p)
    (hstart : start < n.span.start ∨ start < p.valueStart) :
    p.name = name ∧ p.start = start ∧ p.stop = n.span.stop ∧ p.value.Fits start p.stop ∧
      ∀ last, n.Tight last → n.span.stop ≤ last := by
  cases h with
  | @mk id span kind front last placed le after tight apart named sound =>
    cases kind
    case arrayBinding binding members brackets =>
      cases hp
      obtain ⟨rfl,hopen,hclose,rfl,hmembers⟩ := placed
      have hbefore : start < brackets.start := hstart.elim (fun hlt => Nat.lt_of_lt_of_le hlt hopen) fun hlt => hlt
      refine ⟨rfl,rfl,rfl,⟨hbefore,Nat.le_of_lt hclose,Nat.le_refl _,
        pairwise_objectForms apart sound,fun g hg => ?_⟩,fun last h => ?_⟩
      · obtain ⟨c,hc,hg⟩ := List.mem_filterMap.mp hg
        have hfits := (sound c hc).fits hg
        exact ⟨Nat.le_trans (hmembers c hc) hfits.start,hfits.tight _ (tight c hc),c,sound c hc,hg⟩
      · exact (Node.tight_span (by simp) (by simp)).mp h (Nat.lt_of_le_of_lt hopen hclose)
    all_goals cases hp

lemma names_ne_nil {name : QualifiedName} (h : name.joined ≠ "") : name.names ≠ [] := by
  intro hnil
  simp [QualifiedName.joined,hnil] at h

/-- A declared property, with the value that it has from the start. -/
lemma declaredForm_fits {id front last : Nat} {m : PublicMember Node}
    (hm : front ≤ m.name.span.start ∧ m.name.span.start < last ∧
      ∀ b ∈ m.binding, m.name.span.start < b.span.start)
    (sound : ∀ c ∈ (Kind.publicMember m).children, c.Sound)
    (tight : ∀ c ∈ (Kind.publicMember m).children, c.Tight last) :
    (Node.declaredForm m).Fits (.mk id ⟨front, max last front⟩ (.publicMember m)) := by
  obtain ⟨hstart,hlt,hbinding⟩ := hm
  have htight (last' : Nat)
      (h : (Node.mk id ⟨front, max last front⟩ (.publicMember m)).Tight last') :
      m.name.span.start < last' ∧ last ≤ last' := by
    have := (Node.tight_span (by simp) (by simp)).mp h
    simp only at this
    omega
  have hmax : m.name.span.start < max last front := by omega
  cases hb : m.binding with
  | none =>
    simp only [Node.declaredForm,hb]
    have hnone : ¬ValueForm.script.outline?.isSome := Bool.false_ne_true
    exact ⟨hstart,hmax,fun _ _ h => absurd h hnone,fun last' h => ⟨(htight last' h).1,fun h => absurd h hnone⟩,
      List.cons_ne_nil _ _,trivial⟩
  | some b =>
    have hafter := Nat.le_of_lt (hbinding b hb)
    have hmem : b ∈ (Kind.publicMember m).children := by simp [Kind.children,hb]
    have hbelow (stop : Nat)
        (h : (Node.mk id ⟨front, max last front⟩ (.publicMember m)).Below stop) : b.span.stop ≤ stop := by
      cases h with
      | mk self children => exact (children b hmem).stop_le
    simp only [Node.declaredForm,hb]
    cases harray : b.arrayForm? [m.name.name] m.name.span.start (m.memberType.map QualifiedName.joined) with
    | some p =>
      obtain ⟨hname,hp,hstop,hvalue,hend⟩ := arrayForm_fits (sound b hmem) harray (.inl (hbinding b hb))
      rw [Option.getD_some]
      refine ⟨hp ▸ hstart,hp ▸ hmax,fun stop h _ => hstop ▸ hbelow stop h,fun last' h => ?_,?_,hp ▸ hvalue⟩
      · have hlast := Nat.le_trans (hend last (tight b hmem)) (htight last' h).2
        exact ⟨hp ▸ (htight last' h).1,fun _ => hstop ▸ hlast⟩
      · rw [hname]
        exact List.cons_ne_nil _ _
    | none =>
      rw [Option.getD_none]
      cases hobject : b.objectForm? with
      | none =>
        have hnone : ¬ValueForm.script.outline?.isSome := Bool.false_ne_true
        exact ⟨hstart,hmax,fun stop h _ => hbelow stop h,
          fun last' h => ⟨(htight last' h).1,fun h => absurd h hnone⟩,List.cons_ne_nil _ _,trivial⟩
      | some g =>
        have hfits := (sound b hmem).fits hobject
        refine ⟨hstart,hmax,fun stop h _ => hbelow stop h,fun last' h => ?_,List.cons_ne_nil _ _,
          Nat.le_trans hafter hfits.start,Nat.le_of_eq hfits.stop,b,sound b hmem,hobject⟩
        have hend := hfits.stop ▸ hfits.tight last (tight b hmem)
        exact ⟨(htight last' h).1,fun _ => Nat.le_trans hend (htight last' h).2⟩

/-- An array bound to a name, which starts with the name. -/
lemma arrayBinding_fits {id : Nat} {span : Span} {name : QualifiedName} {members : List Node}
    {brackets : Span} {p : PropertyForm} (h : (Node.mk id span (.arrayBinding name members brackets)).Sound)
    (hnamed : (Node.mk id span (.arrayBinding name members brackets)).Named)
    (hp : (Node.mk id span (.arrayBinding name members brackets)).memberForm? = some (.property p)) :
    p.Fits (.mk id span (.arrayBinding name members brackets)) := by
  obtain ⟨hjoined,hname,hbrackets⟩ := hnamed
  replace hp : ((Node.mk id span (.arrayBinding name members brackets)).arrayForm? name.names
    name.span.start none).map MemberForm.property = some (.property p) := hp
  obtain ⟨_,harray,⟨⟩⟩ := Option.map_eq_some_iff.mp hp
  replace hname : name.span.start = span.start := hname
  rw [hname] at harray
  have hopen := hbrackets
  obtain ⟨hpname,hpstart,hpstop,hvalue,htight⟩ := arrayForm_fits h harray (.inr (by cases harray; exact hopen))
  have hlt : span.start < span.stop := by
    cases h with
    | mk front last placed =>
      obtain ⟨rfl,-,hclose,rfl,-⟩ := placed
      exact Nat.lt_trans hbrackets hclose
  refine ⟨Nat.le_of_eq hpstart.symm,hpstart.trans_lt hlt,fun stop h _ => hpstop ▸ h.stop_le,
    fun last h => ?_,hpname ▸ names_ne_nil hjoined,hpstart ▸ hvalue⟩
  exact ⟨hpstart.trans_lt (Nat.lt_of_lt_of_le hlt (htight last h)),fun _ => hpstop ▸ htight last h⟩

/-- A member of an object that is a property. -/
lemma Node.Sound.propertyFits {p : PropertyForm} (h : n.Sound) (hnamed : n.Named)
    (hp : n.memberForm? = some (.property p)) : p.Fits n := by
  have hobject (f : ObjectForm) (hf : n.objectForm? = some f) : f.Sound := ⟨n,h,hf⟩
  cases h with
  | @mk id span kind front last placed le start tight apart named sound =>
    cases kind
    case objectDefinition typeName init =>
      obtain ⟨rfl,hlt,hjoined,-⟩ := placed
      simp only [Node.memberForm?,Node.kind] at hp
      split at hp
      · cases hp
        refine ⟨Nat.le_refl _,hlt,fun stop h _ => h.stop_le,fun last' h => ?_,names_ne_nil hjoined,
          Nat.le_refl _,Nat.le_refl _,hobject _ rfl⟩
        have hend := (Node.tight_span (by simp) (by simp)).mp h hlt
        exact ⟨Nat.lt_of_lt_of_le hlt hend,fun _ => hend⟩
      · cases hp
    case objectBinding name typeName init on =>
      obtain ⟨rfl,hlt,hjoined,-,-,-,hon⟩ := placed
      cases hp
      have hstart : (if on then front else name.span.start) = front := by
        cases on with
        | true => rfl
        | false => exact (hon rfl).1
      have hbegin : front ≤ if on then front else typeName.span.start := by
        cases on with
        | true => exact Nat.le_refl _
        | false => exact Nat.le_of_lt (hon rfl).2.1
      refine ⟨Nat.le_of_eq hstart.symm,hstart.trans_lt hlt,fun stop h _ => h.stop_le,
        fun last' h => ?_,names_ne_nil hjoined,hstart.trans_le hbegin,Nat.le_refl _,hobject _ rfl⟩
      have hend := (Node.tight_span (by simp) (by simp)).mp h hlt
      exact ⟨hstart.trans_lt (Nat.lt_of_lt_of_le hlt hend),fun _ => hend⟩
    case scriptBinding name statement =>
      obtain ⟨rfl,hlt,hjoined,hname,hstatement⟩ := placed
      simp only [Node.memberForm?,Node.kind] at hp
      split at hp
      · cases hp
      · cases hp
        have hle := (sound statement (List.mem_singleton_self statement)).span_le
        refine ⟨Nat.le_of_eq hname.symm,hname.trans_lt (Nat.lt_of_lt_of_le hstatement hle),
          fun _ _ h => by simp [ValueForm.outline?] at h,fun last' h => ?_,names_ne_nil hjoined,trivial⟩
        exact ⟨hname.trans_lt (Node.tight_script.mp h).1,fun h => by simp [ValueForm.outline?] at h⟩
    case arrayBinding name members brackets =>
      exact arrayBinding_fits (.mk front last placed le start tight apart named sound) hnamed hp
    case publicMember m =>
      simp only [Node.memberForm?,Node.kind] at hp
      split at hp
      · rename_i hkind
        cases hp
        obtain ⟨rfl,hm⟩ := placed
        exact declaredForm_fits (hm hkind) sound tight
      · cases hp
    all_goals cases hp

/-- A member of an object that is an object by itself. -/
lemma objectForm_of_child (h : n.memberForm? = some (.child g)) : n.objectForm? = some g := by
  obtain ⟨id,span,kind⟩ := n
  cases kind
  case objectDefinition typeName init =>
    simp only [Node.memberForm?,Node.kind] at h
    split at h
    · cases h
    · cases h
      rfl
  case objectBinding => cases h
  case scriptBinding =>
    simp only [Node.memberForm?,Node.kind] at h
    split at h <;> cases h
  case publicMember =>
    simp only [Node.memberForm?,Node.kind] at h
    split at h <;> cases h
  all_goals cases h

/-! Members side by side make parts side by side. -/

/-- A member ends before an offset, as far as it holds something. -/
def MemberForm.Ends (offset : Nat) : MemberForm → Prop
  | .property p => p.start < offset ∧ (p.value.outline?.isSome → p.stop ≤ offset)
  | .child g => g.span.stop ≤ offset

def MemberForm.start : MemberForm → Nat
  | .property p => p.start
  | .child g => g.span.start

lemma Node.Sound.memberForm {m : MemberForm} (h : n.Sound) (hnamed : n.Named)
    (hm : n.memberForm? = some m) :
    n.span.start ≤ m.start ∧ (∀ offset, n.Below offset → m.Ends offset) ∧ ∀ g ∈ m.objects, g.Sound := by
  cases m with
  | child g =>
    have hg := objectForm_of_child hm
    have hfits := h.fits hg
    refine ⟨hfits.start,fun offset hbelow => ?_,fun g' hg' => ?_⟩
    · exact Nat.le_trans (Nat.le_of_eq hfits.stop) hbelow.stop_le
    · rw [List.mem_singleton.mp hg']
      exact ⟨n,h,hg⟩
  | property p =>
    have hfits := h.propertyFits hnamed hm
    refine ⟨hfits.start,fun offset hbelow => ?_,fun g hg => ?_⟩
    · exact ⟨Nat.lt_of_lt_of_le hfits.lt hbelow.stop_le,hfits.stop offset hbelow⟩
    · have hvalue := hfits.value
      change g ∈ p.value.objects at hg
      cases hv : p.value with
      | script => simp [hv,ValueForm.objects] at hg
      | object g' =>
        rw [hv] at hg hvalue
        rw [List.mem_singleton.mp hg]
        exact hvalue.2.2
      | array node span members =>
        rw [hv] at hg hvalue
        exact (hvalue.2.2.2.2 g hg).2.2

/-- The nodes of the members of an object. Their tokens end in it. -/
structure ObjectForm.MadeOf (f : ObjectForm) (nodes : List Node) : Prop where
  members : f.members = nodes.filterMap Node.memberForm?
  start : ∀ x ∈ nodes, f.span.start < x.span.start
  apart : nodes.Pairwise fun c d => c.Below d.span.start
  named : ∀ x ∈ nodes, x.Named
  sound : ∀ x ∈ nodes, x.Sound
  tight : ∃ last, (∀ x ∈ nodes, x.Tight last) ∧ ∀ x ∈ nodes, x.span.start < last → last ≤ f.span.stop

lemma ObjectForm.Sound.madeOf (h : f.Sound) : ∃ nodes, f.MadeOf nodes := by
  obtain ⟨n,hn,hf⟩ := h
  obtain ⟨-,-,-,-,-,hinit,hinside,hbody⟩ := hn.fits hf
  cases hkind : f.initializer.kind
  case objectInitializer nodes =>
    obtain ⟨node,typeName,span,⟨id,initSpan,kind⟩⟩ := f
    cases hkind
    cases hinit with
    | mk front last placed le start tight apart named sound =>
      cases placed
      refine ⟨nodes,rfl,fun x hx => Nat.lt_of_lt_of_le hinside (start x hx),apart,named (by simp),sound,
        last,tight,fun x hx hlt => ?_⟩
      have hfront := start x hx
      have hmax := (Node.tight_span (by simp) (by simp)).mp hbody
      simp only at hmax ⊢
      omega
  all_goals
    refine ⟨[],?_,by simp,.nil,by simp,by simp,0,by simp,by simp⟩
    simp [ObjectForm.members,hkind]

/-- What is known of the members of an object. -/
structure ObjectForm.Ordered (f : ObjectForm) : Prop where
  apart : f.members.Pairwise fun m m' => m.Ends m'.start
  property (p : PropertyForm) : .property p ∈ f.members →
    f.span.start < p.start ∧ p.start < f.span.stop ∧ (p.value.outline?.isSome → p.stop ≤ f.span.stop) ∧
      p.name ≠ [] ∧ p.value.Fits p.start p.stop
  child (g : ObjectForm) : .child g ∈ f.members →
    f.span.start < g.span.start ∧ g.span.stop ≤ f.span.stop
  sound : ∀ m ∈ f.members, ∀ g ∈ m.objects, g.Sound

lemma ObjectForm.Sound.ordered (h : f.Sound) : f.Ordered := by
  obtain ⟨nodes,hmembers,hstart,hapart,hnamed,hsound,last,htight,hlast⟩ := h.madeOf
  refine ⟨?_,fun p hp => ?_,fun g hg => ?_,fun m hm => ?_⟩
  · rw [hmembers]
    refine List.pairwise_filterMap.mpr (hapart.imp_of_mem fun {c d} hc hd hcd m hm m' hm' => ?_)
    have hafter := (hsound d hd).memberForm (hnamed d hd) hm'
    exact ((hsound c hc).memberForm (hnamed c hc) hm).2.1 _ (hcd.mono hafter.1)
  · rw [hmembers] at hp
    obtain ⟨x,hx,hp⟩ := List.mem_filterMap.mp hp
    obtain ⟨hbegin,hlt,-,hmark,hname,hvalue⟩ := (hsound x hx).propertyFits (hnamed x hx) hp
    obtain ⟨hbefore,hheld⟩ := hmark last (htight x hx)
    have hend := hlast x hx (by omega)
    have hopen := hstart x hx
    exact ⟨by omega,by omega,fun h => Nat.le_trans (hheld h) hend,hname,hvalue⟩
  · rw [hmembers] at hg
    obtain ⟨x,hx,hg⟩ := List.mem_filterMap.mp hg
    have hfits := (hsound x hx).fits (objectForm_of_child hg)
    have hstop := hfits.tight last (htight x hx)
    have hbegin := hfits.start
    have hlt := hfits.lt
    have hend := hlast x hx (by omega)
    have hopen := hstart x hx
    exact ⟨by omega,by omega⟩
  · rw [hmembers] at hm
    obtain ⟨x,hx,hm⟩ := List.mem_filterMap.mp hm
    exact ((hsound x hx).memberForm (hnamed x hx) hm).2.2

lemma ObjectForm.Sound.lt (h : f.Sound) : f.span.start < f.span.stop := by
  obtain ⟨n,hn,hf⟩ := h
  exact (hn.fits hf).lt

lemma ObjectForm.Sound.typed (h : f.Sound) : f.typeName ≠ "" := by
  obtain ⟨n,hn,hf⟩ := h
  exact (hn.fits hf).typed

lemma ObjectForm.span_outline (f : ObjectForm) : f.outline.span = f.span := by
  rw [f.outline_eq]
  rfl

lemma ObjectForm.typeName_outline (f : ObjectForm) : f.outline.typeName = f.typeName := by
  rw [f.outline_eq]
  rfl

/-- A property and an object of the same object do not overlap. -/
lemma ObjectForm.Ordered.mixed (h : f.Ordered) {p : PropertyForm} (hp : .property p ∈ f.members)
    (hg : .child g ∈ f.members) :
    Outline.Ends (p.outline f.typeName) g.span.start ∨ g.span.stop ≤ p.start := by
  let Apart (m m' : MemberForm) : Prop := m.Ends m'.start ∨ m'.Ends m.start
  have hsymm : Std.Symm Apart := ⟨fun _ _ => Or.symm⟩
  have hpairs : f.members.Pairwise Apart := h.apart.imp fun hends => .inl hends
  exact hpairs.forall hp hg (by simp)

/-- What a property holds is laid out, if the objects in it are. -/
lemma ValueForm.Fits.laid {start stop : Nat} {v : ValueForm} (h : v.Fits start stop)
    (hlaid : ∀ g ∈ v.objects, g.outline.Laid) {c : Outline} (hc : v.outline? = some c) :
    start ≤ c.span.start ∧ (c.typeName = "" → start < c.span.start) ∧ c.span.stop ≤ stop ∧ c.Laid := by
  cases v with
  | script => cases hc
  | object g =>
    cases hc
    rw [g.span_outline,g.typeName_outline]
    exact ⟨h.1,fun hnone => absurd hnone h.2.2.typed,h.2.1,hlaid g (List.mem_singleton_self g)⟩
  | array node span members =>
    cases hc
    obtain ⟨hstart,hle,hstop,hapart,hmembers⟩ := h
    have none {P : OutlineProperty Outline → Prop} : ∀ p ∈ [], P p := List.forall_mem_nil P
    refine ⟨Nat.le_of_lt hstart,fun _ => hstart,hstop,.mk hle .nil (List.pairwise_map.mpr ?_) none none none none
      ?_ ?_ (fun _ => rfl) none ?_ ?_ (absurd rfl) none⟩
    · simpa only [ObjectForm.span_outline] using hapart
    · rintro c hc
      obtain ⟨g,hg,rfl⟩ := List.mem_map.mp hc
      rw [g.span_outline]
      exact ⟨(hmembers g hg).1,(hmembers g hg).2.1⟩
    · rintro c hc
      obtain ⟨g,hg,rfl⟩ := List.mem_map.mp hc
      rw [g.typeName_outline]
      exact (hmembers g hg).2.2.typed
    · rintro c hc
      obtain ⟨g,hg,rfl⟩ := List.mem_map.mp hc
      exact hlaid g hg
    · rintro c hc
      obtain ⟨g,hg,rfl⟩ := List.mem_map.mp hc
      rw [g.span_outline]
      exact (hmembers g hg).2.2.lt

lemma MemberForm.exists_property {members : List MemberForm} {owner : String} {q : OutlineProperty Outline}
    (hq : q ∈ members.filterMap (property? owner)) : ∃ p, .property p ∈ members ∧ p.outline owner = q := by
  obtain ⟨m,hm,hq⟩ := List.mem_filterMap.mp hq
  cases m with
  | child g => cases hq
  | property p => exact ⟨p,hm,Option.some.inj hq⟩

lemma MemberForm.exists_child {members : List MemberForm} {c : Outline} (hc : c ∈ members.filterMap child?) :
    ∃ g, .child g ∈ members ∧ g.outline = c := by
  obtain ⟨m,hm,hc⟩ := List.mem_filterMap.mp hc
  cases m with
  | property p => cases hc
  | child g => exact ⟨g,hm,Option.some.inj hc⟩

/-- Properties of an object stand side by side in its outline. -/
lemma ObjectForm.Ordered.properties (h : f.Ordered) :
    (f.members.filterMap (MemberForm.property? f.typeName)).Pairwise fun p q => Outline.Ends p q.start := by
  refine List.pairwise_filterMap.mpr (h.apart.imp fun {m m'} hends p hp q hq => ?_)
  cases m with
  | child g => cases hp
  | property p' =>
    cases m' with
    | child g => cases hq
    | property q' =>
      cases hp
      cases hq
      exact hends

/-- Objects in an object stand side by side in its outline. -/
lemma ObjectForm.Ordered.children (h : f.Ordered) :
    (f.members.filterMap MemberForm.child?).Pairwise fun c d => c.span.stop ≤ d.span.start := by
  refine List.pairwise_filterMap.mpr (h.apart.imp fun {m m'} hends c hc d hd => ?_)
  cases m with
  | property p => cases hc
  | child g =>
    cases m' with
    | property q => cases hd
    | child g' =>
      cases hc
      cases hd
      rw [g.span_outline,g'.span_outline]
      exact hends

lemma ObjectForm.laid_of_members (h : f.Sound)
    (hlaid : ∀ m ∈ f.members, ∀ g ∈ m.objects, g.outline.Laid) : f.outline.Laid := by
  have hordered := h.ordered
  have value {p : PropertyForm} (hp : .property p ∈ f.members) {c : Outline} (hc : p.value.outline? = some c) :=
    (hordered.property p hp).2.2.2.2.laid (hlaid (.property p) hp) hc
  rw [f.outline_eq]
  refine .mk (Nat.le_of_lt h.lt) hordered.properties hordered.children ?_ ?_ ?_ ?_ ?_ ?_
    (fun hnone => absurd hnone h.typed) ?_ ?_ ?_ ?_ ?_
  · intro q hq c hc
    obtain ⟨p,hp,rfl⟩ := MemberForm.exists_property hq
    obtain ⟨g,hg,rfl⟩ := MemberForm.exists_child hc
    rw [g.span_outline]
    exact hordered.mixed hp hg
  · intro q hq
    obtain ⟨p,hp,rfl⟩ := MemberForm.exists_property hq
    obtain ⟨hstart,hstop,hheld,-⟩ := hordered.property p hp
    exact ⟨hstart,hstop,hheld⟩
  · intro q hq
    obtain ⟨p,hp,rfl⟩ := MemberForm.exists_property hq
    exact (hordered.property p hp).2.2.2.1
  · intro q hq c hc
    obtain ⟨p,hp,rfl⟩ := MemberForm.exists_property hq
    exact ⟨(value hp hc).1,(value hp hc).2.2.1⟩
  · intro c hc
    obtain ⟨g,hg,rfl⟩ := MemberForm.exists_child hc
    rw [g.span_outline]
    exact (hordered.child g hg).imp_left Nat.le_of_lt
  · intro c hc
    obtain ⟨g,hg,rfl⟩ := MemberForm.exists_child hc
    rw [g.typeName_outline]
    exact (hordered.sound _ hg g (List.mem_singleton_self g)).typed
  · intro q hq c hc
    obtain ⟨p,hp,rfl⟩ := MemberForm.exists_property hq
    exact (value hp hc).2.2.2
  · intro c hc
    obtain ⟨g,hg,rfl⟩ := MemberForm.exists_child hc
    exact hlaid _ hg g (List.mem_singleton_self g)
  · intro c hc
    obtain ⟨g,hg,rfl⟩ := MemberForm.exists_child hc
    rw [g.span_outline]
    exact (hordered.sound _ hg g (List.mem_singleton_self g)).lt
  · intro _ c hc
    obtain ⟨g,hg,rfl⟩ := MemberForm.exists_child hc
    rw [g.span_outline]
    exact (hordered.child g hg).1
  · intro q hq c hc
    obtain ⟨p,hp,rfl⟩ := MemberForm.exists_property hq
    exact (value hp hc).2.1

end

/-- The outline of an object of a sound tree is laid out. -/
theorem ObjectForm.Sound.laid {f : ObjectForm} (h : f.Sound) : f.outline.Laid :=
  ObjectForm.laid_of_members h fun m hm g hg => (h.ordered.sound m hm g hg).laid
termination_by sizeOf f.initializer
decreasing_by exact ObjectForm.sizeOf_initializer_lt hm hg

namespace Node

/-- The outline of the first object of a sound tree is laid out. -/
theorem Sound.outline_laid {n : Node} (h : n.Sound) {o : Outline} (ho : n.outline? = some o) : o.Laid := by
  obtain ⟨first,hfirst,ho⟩ := Option.bind_eq_some_iff.mp ho
  obtain ⟨f,hf,rfl⟩ := Option.map_eq_some_iff.mp ho
  exact ObjectForm.Sound.laid ⟨first,h.of_mem_walk (List.mem_of_find?_eq_some hfirst),hf⟩

end Node

end QmlCodeModel
