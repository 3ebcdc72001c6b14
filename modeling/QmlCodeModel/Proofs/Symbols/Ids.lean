import QmlCodeModel.Proofs.FiniteMap
import QmlCodeModel.Proofs.Symbols.Agreement
import QmlCodeModel.Proofs.Tree.Objects

/-! The names that a document gives to its objects. The tables keep the object that each name was given to last,
and the name that each object was given last; both are compared with the bindings of names in the tree. -/
namespace QmlCodeModel

/-- A name is given to an object: the node of the object, and where the binding of the name stands. -/
structure Naming where
  name : String
  node : Nat
  span : Span
  deriving DecidableEq

namespace Node

/-- The parts of a node of a document, without its scripts and headers. -/
def memberParts (n : Node) : List Node :=
  match n.kind with
  | .document _ members | .objectInitializer members | .arrayBinding _ members _ => members
  | .objectDefinition _ init | .objectBinding _ _ init _ => [init]
  | .publicMember m => m.binding.toList
  | _ => []

lemma memberParts_sublist (n : Node) : n.memberParts.Sublist n.children := by
  obtain ⟨id,span,kind⟩ := n
  cases kind
  case document headers members => exact List.sublist_append_right headers members
  case publicMember m => exact List.sublist_append_right m.statement.toList m.binding.toList
  all_goals first | exact List.Sublist.refl _ | exact List.nil_sublist _

/-- The object that the parts of a node stand in, by its node, and whether it only groups bindings. -/
def partOwner (owner : Option (Nat × Bool)) (n : Node) : Option (Nat × Bool) :=
  n.objectForm?.elim owner fun f => some (n.id,startsLowercase f.typeName)

/-- The name that a node gives to the object that it stands in. The binding of an `id` counts if it is a plain
name, and the object no group of bindings. -/
def naming? (owner : Option (Nat × Bool)) (n : Node) : Option Naming :=
  match n.kind,owner with
  | .scriptBinding name statement,some (node,false) =>
    if name.joined == "id" then (SymbolTables.plainName? statement).map fun given => ⟨given,node,n.span⟩ else none
  | _,_ => none

/-- The names that are given at and below a node, in the order of the source. -/
def namings (owner : Option (Nat × Bool)) (n : Node) : List Naming :=
  (n.naming? owner).toList ++
    n.memberParts.attach.flatMap fun ⟨c, _⟩ => c.namings (n.partOwner owner)
termination_by sizeOf n
decreasing_by exact sizeOf_lt_of_mem_children (n.memberParts_sublist.subset ‹_›)

lemma namings_eq (owner : Option (Nat × Bool)) (n : Node) :
    n.namings owner = (n.naming? owner).toList ++ n.memberParts.flatMap (namings (n.partOwner owner)) := by
  rw [namings]
  exact congrArg _ (flatMap_attach n.memberParts (namings (n.partOwner owner)))

/-- Where the binding of a name stands, a node stands. -/
lemma exists_of_mem_namings {owner : Option (Nat × Bool)} {n : Node} {a : Naming} (h : a ∈ n.namings owner) :
    ∃ x ∈ n.walk, x.span = a.span := by
  induction n using Node.walk.induct generalizing owner with
  | case1 n ih =>
    rw [namings_eq] at h
    obtain h | h := List.mem_append.mp h
    · refine ⟨n,n.mem_walk_self,?_⟩
      rw [Option.mem_toList] at h
      unfold naming? at h
      split at h
      · split at h
        · obtain ⟨given,-,rfl⟩ := Option.map_eq_some_iff.mp h
          rfl
        · cases h
      · cases h
    · obtain ⟨c,hc,h⟩ := List.mem_flatMap.mp h
      have hc := n.memberParts_sublist.subset hc
      obtain ⟨x,hx,hspan⟩ := ih c hc h
      exact ⟨x,mem_walk_of_mem_children hc hx,hspan⟩

/-- The bindings of names stand one behind the other. -/
lemma Sound.pairwise_namings {n : Node} (h : n.Sound) (owner : Option (Nat × Bool)) :
    (n.namings owner).Pairwise fun a b => a.span.stop ≤ b.span.start := by
  induction n using Node.walk.induct generalizing owner with
  | case1 n ih =>
    rw [namings_eq]
    have hparts : (n.memberParts.flatMap (namings (n.partOwner owner))).Pairwise
        fun a b => a.span.stop ≤ b.span.start := by
      refine List.pairwise_flatMap.mpr ⟨fun c hc => ?_,?_⟩
      · have hc := n.memberParts_sublist.subset hc
        exact ih c hc (h.of_mem_children hc) _
      · refine (h.apart.sublist n.memberParts_sublist).imp_of_mem fun {c d} hc hd hcd a ha b hb => ?_
        obtain ⟨x,hx,hspan⟩ := exists_of_mem_namings ha
        obtain ⟨y,hy,hspan'⟩ := exists_of_mem_namings hb
        rw [← hspan,← hspan']
        have hstart := (h.of_mem_children (n.memberParts_sublist.subset hd)).start_le hy
        exact Nat.le_trans (hcd.of_mem_walk hx).stop_le hstart
    cases hname : n.naming? owner with
    | none => exact hparts
    | some a =>
      -- A binding has no parts but its script.
      have hnone : n.memberParts = [] := by
        unfold naming? at hname
        split at hname
        · rename_i hk
          rw [memberParts,hk]
        · cases hname
      rw [hnone]
      exact List.pairwise_singleton _ a

end Node

/-- What the tables know of an object for its name. -/
structure ObjectLabel where
  node : Nat
  grouped : Bool
  id : Option String

def ObjectValue.label (o : ObjectValue) : ObjectLabel := ⟨o.node, o.grouped, o.id⟩

/-- An object by its node, and whether it only groups bindings. -/
def ObjectLabel.place (l : ObjectLabel) : Nat × Bool := (l.node,l.grouped)

def IdFault.isDuplicate : IdFault → Bool
  | .duplicate _ => true
  | _ => false

/-- The objects and their names, and how often a name was taken. -/
structure Register where
  objects : List ObjectLabel
  ids : IdEnvironment
  duplicates : Nat

namespace Register

def enter (r : Register) (node : Nat) (grouped : Bool) : Register :=
  { r with objects := r.objects ++ [⟨node, grouped, none⟩] }

/-- Gives an object a name. -/
def give (r : Register) (object : Nat) (name : String) : Register where
  objects := r.objects.modify object fun l => { l with id := some name }
  ids := r.ids.insert name object
  duplicates := r.duplicates + if r.ids.contains name then 1 else 0

def placeAt? (r : Register) (object : Nat) : Option (Nat × Bool) := r.objects[object]?.map ObjectLabel.place

end Register

namespace SymbolTables

def register (t : SymbolTables) : Register where
  objects := t.objects.toList.map ObjectValue.label
  ids := t.ids
  duplicates := t.faults.toList.countP (·.2.isDuplicate)

variable {t : SymbolTables} {object : Option Nat}

lemma register_script (c : Surroundings) (t : SymbolTables) (n : Node) : (t.script c n).register = t.register :=
  view_script (v := register) (fun _ _ _ => rfl) (fun _ _ _ _ => rfl) c t n

lemma register_binding (t : SymbolTables) (statement : Node) : (t.binding statement).register = t.register :=
  view_binding (v := register) (fun _ _ _ => rfl) (fun _ _ _ _ => rfl) t statement

lemma register_header (t : SymbolTables) (n : Node) : (t.header n).register = t.register := by
  unfold header
  split <;> rfl

lemma register_modify (t : SymbolTables) (i : Nat) (f : ObjectValue → ObjectValue) (h : ∀ o, (f o).label = o.label) :
    { t with objects := t.objects.modify i f }.register = t.register := by
  unfold register
  rw [map_modify_same _ _ _ h]

lemma register_addMember (t : SymbolTables) (object : Option Nat) (name : String) (kind : ObjectMemberKind)
    (n : Node) : (t.addMember object name kind n).register = t.register := by
  cases object with
  | none => rfl
  | some i => exact t.register_modify i _ fun _ => rfl

lemma register_addObject (t : SymbolTables) (node : Nat) (typeName : String) (parent : Option Nat) :
    (t.addObject node typeName parent).2.register = t.register.enter node (startsLowercase typeName) := by
  let entered := { t with objects := t.objects.push { node, typeName, parent, grouped := startsLowercase typeName } }
  have hentered : entered.register = t.register.enter node (startsLowercase typeName) := by
    simp [entered,register,Register.enter,ObjectValue.label]
  cases parent with
  | none => exact hentered
  | some p =>
    let child (o : ObjectValue) := { o with children := o.children ++ [t.objects.size] }
    exact (entered.register_modify p child fun _ => rfl).trans hentered

lemma register_report (t : SymbolTables) (offset : Nat) {fault : IdFault} (h : fault.isDuplicate = false) :
    (t.report offset fault).register = t.register := by
  simp [register,report,h]

lemma register_nameObject (t : SymbolTables) (i offset : Nat) (name : String) :
    (t.nameObject i offset name).register = t.register.give i name := by
  unfold nameObject
  have hcapital : (if startsUppercase name then t.report offset (.capital name) else t).register = t.register := by
    split
    · exact t.register_report offset rfl
    · rfl
  generalize (if startsUppercase name then t.report offset (.capital name) else t) = u at hcapital
  rw [← hcapital]
  dsimp only
  unfold register
  rw [map_modify (v := ObjectValue.label) _ _ _ (fun l => { l with id := some name }) fun _ => rfl]
  by_cases h : u.ids.contains name
  · simp [h,report,Register.give,IdFault.isDuplicate]
  · simp [h,Register.give]

lemma register_bindId {i node : Nat} {grouped : Bool} (h : t.register.placeAt? i = some (node,grouped))
    (statement : Node) : (t.bindId i statement).register =
      if grouped then t.register else (plainName? statement).elim t.register (t.register.give i) := by
  have hgrouped : (t.objects[i]?.map ObjectValue.grouped).getD false = grouped := by
    have hplace : t.register.placeAt? i = t.objects[i]?.map fun o => (o.node,o.grouped) := by
      simp [Register.placeAt?,register,ObjectLabel.place,ObjectValue.label,Function.comp_def]
    rw [h] at hplace
    obtain ⟨o,ho,heq⟩ := Option.map_eq_some_iff.mp hplace.symm
    rw [ho]
    exact congrArg Prod.snd heq
  unfold bindId
  rw [hgrouped]
  cases plainName? statement with
  | none => exact (register_report t _ rfl).trans (ite_self _).symm
  | some name =>
    cases grouped with
    | true => exact register_report t _ rfl
    | false => exact register_nameObject t i _ name

end SymbolTables

namespace Register

/-- The names given so far, each with the number of its object, and what has become of them. -/
structure Holds (r : Register) (log : List (String × Nat)) : Prop where
  present : ∀ e ∈ log, e.2 < r.objects.length
  ids : r.ids = FiniteMap.ofLog log
  given : ∀ i l, r.objects[i]? = some l → l.id = (log.reverse.find? (·.2 = i)).map Prod.fst
  duplicates : r.duplicates + r.ids.size = log.length

variable {r r' r'' : Register} {log : List (String × Nat)} {object : Option Nat} {owner : Option (Nat × Bool)}
  {as bs : List Naming}

lemma Holds.enter (h : r.Holds log) (node : Nat) (grouped : Bool) : (r.enter node grouped).Holds log := by
  refine ⟨fun e he => ?_,h.ids,fun i l hl => ?_,h.duplicates⟩
  · have := h.present e he
    simp only [Register.enter,List.length_append,List.length_singleton]
    omega
  · obtain hi | hi := Nat.lt_or_ge i r.objects.length
    · exact h.given i l (List.getElem?_append_left hi ▸ hl)
    · have hlt := (List.getElem?_eq_some_iff.mp hl).1
      simp only [Register.enter,List.length_append,List.length_singleton] at hlt
      obtain rfl : i = r.objects.length := by omega
      obtain rfl : _ = l := by simpa [Register.enter] using hl
      have hnone : log.reverse.find? (·.2 = r.objects.length) = none := by
        refine List.find?_eq_none.mpr fun e he => ?_
        have := h.present e (List.mem_reverse.mp he)
        simp only [decide_eq_true_eq]
        omega
      rw [hnone]
      rfl

lemma Holds.give (h : r.Holds log) {i : Nat} (hi : i < r.objects.length) (name : String) :
    (r.give i name).Holds (log ++ [(name,i)]) := by
  refine ⟨fun e he => ?_,?_,fun j l hl => ?_,?_⟩
  · simp only [Register.give,List.length_modify]
    obtain he | he := List.mem_append.mp he
    · exact h.present e he
    · exact List.mem_singleton.mp he ▸ hi
  · rw [FiniteMap.ofLog_concat,← h.ids]
    rfl
  · simp only [Register.give,List.getElem?_modify] at hl
    obtain ⟨l',hl',rfl⟩ := Option.map_eq_some_iff.mp hl
    rw [List.reverse_append]
    by_cases hij : i = j
    · simp [hij]
    · simpa [hij] using h.given j l' hl'
  · have hduplicates := h.duplicates
    simp only [Register.give,FiniteMap.size_eq,FiniteMap.keys_insert,List.length_append,List.length_singleton] at *
    by_cases hname : name ∈ r.ids.keys
    · rw [if_pos (FiniteMap.contains_iff.mpr hname),if_pos hname]
      omega
    · rw [if_neg (mt FiniteMap.contains_iff.mp hname),if_neg hname,List.length_append,List.length_singleton]
      omega

/-- Objects have been entered behind others, and names given to objects. -/
structure Adds (r : Register) (namings : List Naming) (r' : Register) : Prop where
  places : ∀ i place, r.placeAt? i = some place → r'.placeAt? i = some place
  log : ∀ log, r.Holds log → ∃ later, r'.Holds (log ++ later) ∧
    later.map (fun e => (e.1,(r'.placeAt? e.2).map Prod.fst)) = namings.map fun a => (a.name,some a.node)

namespace Adds

lemma refl (r : Register) : r.Adds [] r := ⟨fun _ _ => id,fun log h => ⟨[],by simpa using h,rfl⟩⟩

lemma of_eq (h : r' = r) : r.Adds [] r' := h ▸ .refl r

lemma trans (h : r.Adds as r') (h' : r'.Adds bs r'') : r.Adds (as ++ bs) r'' := by
  refine ⟨fun i place hplace => h'.places i place (h.places i place hplace),fun log hlog => ?_⟩
  obtain ⟨later,hlater,has⟩ := h.log log hlog
  obtain ⟨later',hlater',hbs⟩ := h'.log _ hlater
  refine ⟨later ++ later',List.append_assoc .. ▸ hlater',?_⟩
  rw [List.map_append,List.map_append,← has,← hbs]
  refine congrArg (· ++ _) (List.map_congr_left fun e he => ?_)
  -- The objects that were named before are still there.
  have hlt := hlater.present e (List.mem_append_right _ he)
  have hplace : r'.placeAt? e.2 = some (r'.objects[e.2].place) := by
    rw [placeAt?,List.getElem?_eq_getElem hlt]
    rfl
  rw [hplace,h'.places _ _ hplace]

lemma enter (r : Register) (node : Nat) (grouped : Bool) : r.Adds [] (r.enter node grouped) := by
  refine ⟨fun i place hplace => ?_,fun log h => ⟨[],by simpa using h.enter node grouped,rfl⟩⟩
  obtain ⟨l,hl,rfl⟩ := Option.map_eq_some_iff.mp hplace
  rw [placeAt?,Register.enter,List.getElem?_append_left (List.getElem?_eq_some_iff.mp hl).1,hl]
  rfl

lemma give {i node : Nat} {grouped : Bool} (h : r.placeAt? i = some (node,grouped)) (name : String) (span : Span) :
    r.Adds [⟨name, node, span⟩] (r.give i name) := by
  have hplaces (j : Nat) : (r.give i name).placeAt? j = r.placeAt? j := by
    simp only [placeAt?,Register.give,List.getElem?_modify]
    cases r.objects[j]? with
    | none => rfl
    | some l => by_cases hij : i = j <;> simp [hij,ObjectLabel.place]
  refine ⟨fun j place hplace => (hplaces j).trans hplace,fun log hlog => ⟨[(name,i)],hlog.give ?_ name,?_⟩⟩
  · obtain ⟨l,hl,-⟩ := Option.map_eq_some_iff.mp h
    exact (List.getElem?_eq_some_iff.mp hl).1
  · simp [hplaces,h]

end Adds

/-- The object that parts stand in, by its number and by its node, or neither. -/
def Stands (r : Register) (object : Option Nat) (owner : Option (Nat × Bool)) : Prop :=
  object.map r.placeAt? = owner.map some

lemma Stands.later (h : r.Stands object owner) (hadds : r.Adds as r') : r'.Stands object owner := by
  cases object with
  | none => exact h
  | some i =>
    cases owner with
    | none => cases h
    | some place => exact congrArg some (hadds.places i place (Option.some.inj h))

end Register

namespace SymbolTables

open Register

variable {t : SymbolTables} {object : Option Nat} {owner : Option (Nat × Bool)}

lemma register_foldl_member {members : List Node}
    (h : ∀ c ∈ members, ∀ t : SymbolTables, t.register.Stands object owner →
      t.register.Adds (c.namings owner) (member object t c).register)
    (hstands : t.register.Stands object owner) :
    t.register.Adds (members.flatMap (Node.namings owner)) (members.foldl (member object) t).register := by
  induction members generalizing t with
  | nil => exact .refl _
  | cons c members ih =>
    have hc := h c List.mem_cons_self t hstands
    exact hc.trans (ih (fun d hd => h d (List.mem_cons_of_mem _ hd)) (hstands.later hc))

/-- An object is entered, and then its members. -/
lemma register_object (t : SymbolTables) (object : Option Nat) (n : Node) (typeName : String) {init : Node}
    (hinit : ∀ (t : SymbolTables) (object : Option Nat) (owner : Option (Nat × Bool)),
      t.register.Stands object owner → t.register.Adds (init.namings owner) (member object t init).register) :
    t.register.Adds (init.namings (some (n.id,startsLowercase typeName)))
      (member (some (t.addObject n.id typeName object).1) (t.addObject n.id typeName object).2 init).register := by
  have hentered := register_addObject t n.id typeName object
  have hadds := Adds.enter t.register n.id (startsLowercase typeName)
  rw [← hentered] at hadds
  refine hadds.trans (hinit _ _ _ ?_)
  rw [hentered]
  simp [Stands,addObject,placeAt?,Register.enter,ObjectLabel.place,register]

/-- The binding of an `id` gives the object that it stands in a name, or none. -/
lemma register_naming {n statement : Node} {name : QualifiedName} (hk : n.kind = .scriptBinding name statement)
    (hstands : t.register.Stands object owner) : t.register.Adds (n.naming? owner).toList
      (match object with
        | some i => if name.joined == "id" then t.bindId i statement else t
        | none => t).register := by
  unfold Node.naming?
  rw [hk]
  cases object with
  | none =>
    cases owner with
    | none => exact .refl _
    | some place => cases hstands
  | some i =>
    cases owner with
    | none => cases hstands
    | some place =>
      obtain ⟨node,grouped⟩ := place
      have hplace : t.register.placeAt? i = some (node,grouped) := Option.some.inj hstands
      cases grouped <;> dsimp only
      case true =>
        refine .of_eq ?_
        split
        · exact register_bindId hplace statement
        · rfl
      case false =>
        cases name.joined == "id" with
        | false => exact .refl _
        | true =>
          rw [if_pos rfl,if_pos rfl,register_bindId hplace,if_neg Bool.false_ne_true]
          cases plainName? statement with
          | none => exact .refl _
          | some given => exact .give hplace given n.span

/-- By induction on the tree: what hangs below a node gives the names that are given there. -/
theorem register_member (n : Node) (t : SymbolTables) (object : Option Nat) (owner : Option (Nat × Bool))
    (hstands : t.register.Stands object owner) :
    t.register.Adds (n.namings owner) (member object t n).register := by
  induction n using Node.walk.induct generalizing t object owner with
  | case1 n ih =>
    have hmembers {members : List Node} (hsub : ∀ c ∈ members, c ∈ n.children) {u : SymbolTables}
        (hu : u.register = t.register) :
        t.register.Adds (members.flatMap (Node.namings owner)) (members.foldl (member object) u).register := by
      rw [← hu] at hstands ⊢
      exact register_foldl_member (fun c hc t h => ih c (hsub c hc) t object owner h) hstands
    obtain ⟨id,span,kind⟩ := n
    rw [member,Node.namings_eq]
    cases kind
    case scriptBinding name statement =>
      simp only [Node.kind]
      rw [register_binding,register_addMember]
      change t.register.Adds (_ ++ []) _
      rw [List.append_nil]
      exact register_naming rfl hstands
    case document headers members =>
      simp only [Node.kind,foldl_attach_member]
      refine hmembers (fun c hc => List.mem_append_right headers hc) ?_
      exact view_foldl (v := register) t fun x _ u => register_header u x
    case objectDefinition typeName init =>
      have hinit := register_object t object (.mk id span (.objectDefinition typeName init)) typeName.joined
        fun t object owner h => ih init (List.mem_singleton_self init) t object owner h
      exact (List.append_nil _).symm ▸ hinit
    case objectBinding name typeName init on =>
      let n : Node := .mk id span (.objectBinding name typeName init on)
      have hinit := register_object (t.addMember object name.joined .objectBinding n) object n typeName.joined
        fun t object owner h => ih init (List.mem_singleton_self init) t object owner h
      rw [register_addMember] at hinit
      exact (List.append_nil _).symm ▸ hinit
    case objectInitializer members =>
      simp only [Node.kind,foldl_attach_member]
      exact hmembers (fun c hc => hc) rfl
    case arrayBinding name members brackets =>
      simp only [Node.kind,foldl_attach_member]
      exact hmembers (fun c hc => hc) (register_addMember t object _ _ _)
    case publicMember m =>
      simp only [Node.kind,foldl_attach_member]
      refine hmembers (fun c hc => List.mem_append_right m.statement.toList hc) ?_
      refine (view_foldl (v := register) _ fun x _ u => register_binding u x).trans ?_
      exact register_addMember t object _ _ _
    case sourceElement element =>
      refine .of_eq ((register_script {} _ element).trans ?_)
      exact view_foldl (v := register) t fun x _ u => register_addMember u object _ _ _
    case enumDeclaration => exact .of_eq (register_addMember t object _ _ _)
    case importing => exact .of_eq (register_header t _)
    case pragma => exact .of_eq (register_header t _)
    all_goals exact .of_eq (register_script {} t _)

/-- All names of a document, with the numbers of their objects in the place of the nodes. -/
lemma exists_log (root : Node) (h : (ofRoot root).nodes.Nodup) : ∃ log, (ofRoot root).register.Holds log ∧
    (root.namings none).map (fun a => (a.name,(ofRoot root).objectOf? a.node)) =
      log.map fun e => (e.1,some e.2) := by
  have hblank : (openScope {} .global root.span none).register.Holds [] :=
    ⟨nofun,rfl,fun i l hl => by simp [register,openScope] at hl,rfl⟩
  obtain ⟨log,hlog,heq⟩ := (register_member root (openScope {} .global root.span none) none none rfl).log [] hblank
  change (ofRoot root).register.Holds log at hlog
  refine ⟨log,hlog,?_⟩
  have hnumbers := congrArg (List.map fun p => (p.1,p.2.bind (ofRoot root).objectOf?)) heq
  rw [List.map_map,List.map_map] at hnumbers
  refine hnumbers.symm.trans (List.map_congr_left fun e he => ?_)
  obtain ⟨v,hv⟩ : ∃ v, (ofRoot root).objects[e.2]? = some v :=
    ⟨_,Array.getElem?_eq_getElem (by simpa [register] using hlog.present e he)⟩
  have hplace : (ofRoot root).register.placeAt? e.2 = some (v.node,v.grouped) := by
    simp [placeAt?,register,hv,ObjectLabel.place,ObjectValue.label]
  change (e.1,(((ofRoot root).register.placeAt? e.2).map Prod.fst).bind _) = _
  rw [hplace]
  exact congrArg _ (objectOf?_eq_some h hv)

lemma node_of_objectOf? {node i : Nat} {v : ObjectValue} (h : t.objectOf? node = some i)
    (hv : t.objects[i]? = some v) : v.node = node := by
  obtain ⟨hlt,hnode,-⟩ := List.findIdx?_eq_some_iff_getElem.mp h
  obtain ⟨_,rfl⟩ := Array.getElem?_eq_some_iff.mp hv
  simpa using hnode

/-- How many messages say that a name is taken. -/
lemma countP_diagnostics (t : SymbolTables) (lines : LineIndex) :
    (t.diagnostics lines).countP (·.severity == .maybeWarning) = t.register.duplicates := by
  rw [diagnostics,List.countP_map]
  refine congrFun (congrArg _ (funext fun f => ?_)) _
  obtain ⟨offset,fault⟩ := f
  cases fault <;> rfl

end SymbolTables

/-- The names of objects are those that the bindings of a document give them. -/
structure IdAgreement (t : SymbolTables) (namings : List Naming) : Prop where
  /-- The bindings stand one behind the other. -/
  ordered : namings.Pairwise fun a b => a.span.stop ≤ b.span.start
  names : t.ids.keys = (namings.map Naming.name).eraseDups
  /-- A name stands for the object that it was given to last. -/
  found : ∀ name, t.ids.get? name = (namings.reverse.find? (·.name = name)).bind fun a => t.objectOf? a.node
  present : ∀ a ∈ namings, (t.valueOf? a.node).isSome
  /-- An object has the name that it was given last. -/
  given : ∀ v ∈ t.objects, v.id = (namings.reverse.find? (·.node = v.node)).map Naming.name
  /-- The object that a name stands for has the name, unless it was given another one later. -/
  kept : ∀ earlier a later, namings = earlier ++ a :: later → (∀ b ∈ later, b.name ≠ a.name) →
    ((t.valueOf? a.node).bind ObjectValue.id = some a.name ↔ ∀ b ∈ later, b.node ≠ a.node)
  listed : ∀ v ∈ t.objects, ∀ name, v.id = some name → (t.ids.get? name).isSome
  duplicates : ∀ lines, (t.diagnostics lines).countP (·.severity == .maybeWarning) + t.ids.size = namings.length

/-- The last binding in the object of another one is that one, unless there are later ones in the object. -/
lemma Naming.find?_node_iff {earlier later : List Naming} {a : Naming} (hlast : ∀ b ∈ later, b.name ≠ a.name) :
    ((earlier ++ a :: later).reverse.find? (·.node = a.node)).map name = some a.name ↔
      ∀ b ∈ later, b.node ≠ a.node := by
  rw [List.reverse_append,List.reverse_cons,List.append_assoc,List.find?_append]
  cases hfind : later.reverse.find? (·.node = a.node) with
  | none =>
    refine iff_of_true (by simp) fun b hb hnode => ?_
    exact List.find?_eq_none.mp hfind b (List.mem_reverse.mpr hb) (decide_eq_true hnode)
  | some b =>
    have hb := List.mem_reverse.mp (List.mem_of_find?_eq_some hfind)
    have hnode : b.node = a.node := by simpa using List.find?_some hfind
    exact iff_of_false (fun hname => hlast b hb (Option.some.inj hname)) fun hno => hno b hb hnode

namespace SymbolTables

variable {t : SymbolTables} {log : List (String × Nat)} {namings : List Naming}

lemma found_of_holds (hlog : t.register.Holds log)
    (heq : namings.map (fun a => (a.name,t.objectOf? a.node)) = log.map fun e => (e.1,some e.2)) (name : String) :
    t.ids.get? name = (namings.reverse.find? (·.name = name)).bind fun a => t.objectOf? a.node := by
  have hfind := congrArg (fun l => (l.reverse.find? (·.1 = name)).bind Prod.snd) heq
  simp only [← List.map_reverse,List.find?_map,Option.bind_map] at hfind
  rw [show t.ids = FiniteMap.ofLog log from hlog.ids,FiniteMap.get?_ofLog,Option.map_eq_bind]
  exact hfind.symm

lemma given_of_holds (hlog : t.register.Holds log) (hnodup : t.nodes.Nodup)
    (heq : namings.map (fun a => (a.name,t.objectOf? a.node)) = log.map fun e => (e.1,some e.2)) {v : ObjectValue}
    (hv : v ∈ t.objects) : v.id = (namings.reverse.find? (·.node = v.node)).map Naming.name := by
  obtain ⟨i,hi⟩ := Array.mem_iff_getElem?.mp hv
  have hsame (a : Naming) : t.objectOf? a.node = some i ↔ a.node = v.node :=
    ⟨fun ha => (node_of_objectOf? ha hi).symm,fun ha => ha ▸ objectOf?_eq_some hnodup hi⟩
  have hfind := congrArg (fun l => (l.reverse.find? (·.2 = some i)).map Prod.fst) heq
  simp only [← List.map_reverse,List.find?_map,Option.map_map,Function.comp_def,hsame,Option.some.injEq] at hfind
  rw [hfind]
  exact hlog.given i v.label (by simp [register,hi])

end SymbolTables

open SymbolTables in
/-- In the tables of a source, with errors or without, names stand for the objects that they were given to last,
in the order of first declaration, and objects have the names that they were given last. -/
theorem ids_agree {source : String} {p : Parse} (h : parse? .qml source = some p) :
    IdAgreement (SymbolTables.ofRoot p.root) (p.root.namings none) := by
  have hnodup := (indexes_agree h).nodup.1
  obtain ⟨log,hlog,heq⟩ := exists_log p.root hnodup
  have hordered := (Grammar.sound_of_parse? h).pairwise_namings none
  generalize SymbolTables.ofRoot p.root = t at *
  generalize p.root.namings none = namings at *
  have hnames : namings.map Naming.name = log.map Prod.fst := by
    have hmap := congrArg (List.map Prod.fst) heq
    rwa [List.map_map,List.map_map] at hmap
  have hpresent : ∀ a ∈ namings, (t.valueOf? a.node).isSome := fun a ha => by
    obtain ⟨e,he,hae⟩ := List.mem_map.mp (heq ▸ List.mem_map_of_mem ha)
    obtain ⟨v,hv⟩ : ∃ v, t.objects[e.2]? = some v :=
      ⟨_,Array.getElem?_eq_getElem (by simpa [register] using hlog.present e he)⟩
    have hnumber : t.objectOf? a.node = some e.2 := (congrArg Prod.snd hae).symm
    rw [valueOf?,hnumber]
    exact Option.isSome_iff_exists.mpr ⟨v,hv⟩
  have hgiven {v : ObjectValue} (hv : v ∈ t.objects) := given_of_holds hlog hnodup heq hv
  constructor
  case ordered => exact hordered
  case names =>
    rw [hnames,show t.ids = FiniteMap.ofLog log from hlog.ids]
    exact FiniteMap.keys_ofLog log
  case found => exact found_of_holds hlog heq
  case present => exact hpresent
  case given => exact fun v hv => hgiven hv
  case kept =>
    rintro earlier a later rfl hlast
    obtain ⟨v,hv⟩ := Option.isSome_iff_exists.mp (hpresent a (by simp))
    obtain ⟨i,hi,hvi⟩ := Option.bind_eq_some_iff.mp hv
    rw [hv,Option.bind_some,hgiven (Array.mem_of_getElem? hvi),node_of_objectOf? hi hvi]
    exact Naming.find?_node_iff hlast
  case listed =>
    intro v hv name hname
    rw [hgiven hv] at hname
    obtain ⟨a,ha,rfl⟩ := Option.map_eq_some_iff.mp hname
    rw [← FiniteMap.mem_keys_iff,show t.ids = FiniteMap.ofLog log from hlog.ids,FiniteMap.keys_ofLog,← hnames]
    exact List.mem_eraseDups.mpr (List.mem_map_of_mem (List.mem_reverse.mp (List.mem_of_find?_eq_some ha)))
  case duplicates =>
    intro lines
    rw [countP_diagnostics,← List.length_map Naming.name,hnames,List.length_map]
    exact hlog.duplicates

/-- A name that is given to two objects, a name that is given twice, a capital, and names that are not taken. -/
theorem ids_agree_repeated : ∃ p,
    parse? .qml "A\x7bid:a;B\x7bid:b;id:a\x7d c\x7bid:d\x7d C\x7bid:B;id:1\x7d D\x7bid:b\x7d" = some p ∧
    (SymbolTables.ofRoot p.root).ids.keys = ["a","b","B"] ∧
    (SymbolTables.ofRoot p.root).ids.values = [1,4,3] ∧
    IdAgreement (SymbolTables.ofRoot p.root) (p.root.namings none) := by
  have h : (parse? .qml "A\x7bid:a;B\x7bid:b;id:a\x7d c\x7bid:d\x7d C\x7bid:B;id:1\x7d D\x7bid:b\x7d").any fun p =>
      (SymbolTables.ofRoot p.root).ids.keys = ["a","b","B"] &&
        (SymbolTables.ofRoot p.root).ids.values = [1,4,3] := by
    decide +kernel
  obtain ⟨p,hp,hids⟩ := (Option.any_eq_true _ _).mp h
  obtain ⟨hkeys,hvalues⟩ := Bool.and_eq_true_iff.mp hids
  exact ⟨p,hp,of_decide_eq_true hkeys,of_decide_eq_true hvalues,ids_agree hp⟩

/-- An object is given two names. Both stand for it, but it has only the second. -/
theorem id_lost_when_given_again : ∃ p, parse? .qml "A\x7bid:a;id:b\x7d" = some p ∧
    (SymbolTables.ofRoot p.root).ids.get? "a" = some 0 ∧
    ¬∃ v ∈ (SymbolTables.ofRoot p.root).objects, v.id = some "a" := by
  have h : (parse? .qml "A\x7bid:a;id:b\x7d").any fun p =>
      (SymbolTables.ofRoot p.root).ids.get? "a" = some 0 &&
        (SymbolTables.ofRoot p.root).objects.toList.all fun v => v.id ≠ some "a" := by
    decide +kernel
  obtain ⟨p,hp,hids⟩ := (Option.any_eq_true _ _).mp h
  obtain ⟨hfound,hnone⟩ := Bool.and_eq_true_iff.mp hids
  refine ⟨p,hp,of_decide_eq_true hfound,fun ⟨v,hv,hid⟩ => ?_⟩
  exact of_decide_eq_true (List.all_eq_true.mp hnone v (Array.mem_def.mp hv)) hid

end QmlCodeModel
