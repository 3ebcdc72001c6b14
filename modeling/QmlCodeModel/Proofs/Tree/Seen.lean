import Mathlib.Data.List.Perm.Basic
import QmlCodeModel.Proofs.Tree.Formed
import QmlCodeModel.Proofs.Tree.Objects

/-! The nodes of a tree apart from those in the patterns that functions and handlers bind. Of such a pattern the
symbol tables take the names, and pass over what hangs in it. -/
namespace QmlCodeModel.Node

variable {n c f x : Node}

def isFunction (n : Node) : Bool :=
  match n.kind with
  | .functionDeclaration _ | .functionExpression _ => true
  | _ => false

/-- The patterns among the parameters of a function, or the one that a handler binds. -/
def boundPatterns (n : Node) : List Node :=
  match n.kind with
  | .functionDeclaration f | .functionExpression f => f.params.flatMap fun p => p.target.children
  | .try _ param _ _ => (param.map BindingTarget.children).getD []
  | _ => []

/-- What hangs directly below a node apart from these patterns. -/
def otherParts (n : Node) : List Node :=
  match n.kind with
  | .functionDeclaration f | .functionExpression f => (f.params.flatMap fun p => p.default.toList) ++ [f.body]
  | .try body _ handler finalizer => body :: (handler.toList ++ finalizer.toList)
  | _ => n.children

lemma children_perm (n : Node) : n.children.Perm (n.boundPatterns ++ n.otherParts) := by
  have hfunction (f : FunctionParts Node) : f.children.Perm
      ((f.params.flatMap fun p => p.target.children) ++ ((f.params.flatMap fun p => p.default.toList) ++ [f.body])) := by
    rw [← List.append_assoc]
    exact (List.flatMap_append_perm f.params _ _).symm.append_right [f.body]
  obtain ⟨id,span,kind⟩ := n
  cases kind
  case functionDeclaration f => exact hfunction f
  case functionExpression f => exact hfunction f
  case «try» body param handler finalizer =>
    change (body :: _).Perm (_ ++ body :: _)
    rw [List.append_assoc]
    exact List.perm_middle.symm
  all_goals exact List.Perm.refl _

lemma mem_children_of_mem_otherParts (h : c ∈ n.otherParts) : c ∈ n.children :=
  n.children_perm.symm.subset (List.mem_append_right _ h)

lemma mem_children_of_mem_boundPatterns (h : c ∈ n.boundPatterns) : c ∈ n.children :=
  n.children_perm.symm.subset (List.mem_append_left _ h)

/-- A node and all nodes below it that hang in no such pattern, each before its parts. -/
def seen (n : Node) : List Node := n :: n.otherParts.attach.flatMap fun ⟨c, _⟩ => c.seen
termination_by sizeOf n
decreasing_by exact sizeOf_lt_of_mem_children (mem_children_of_mem_otherParts ‹_›)

lemma seen_eq (n : Node) : n.seen = n :: n.otherParts.flatMap seen := by
  rw [seen]
  exact congrArg (n :: ·) (flatMap_attach n.otherParts seen)

/-- The nodes in the patterns that a node binds. -/
def hidden (n : Node) : List Node := n.boundPatterns.flatMap walk

/-- A tree consists of the nodes seen, and of those hidden in the patterns that they bind. -/
lemma walk_perm (n : Node) : n.walk.Perm (n.seen ++ n.seen.flatMap hidden) := by
  induction n using Node.walk.induct with
  | case1 n ih =>
    have hparts : (n.otherParts.flatMap walk).Perm
        (n.otherParts.flatMap seen ++ (n.otherParts.flatMap seen).flatMap hidden) := by
      rw [List.flatMap_assoc]
      refine List.Perm.trans ?_ (List.flatMap_append_perm _ _ _).symm
      exact List.Perm.flatMap_left _ fun c hc => ih c (mem_children_of_mem_otherParts hc)
    rw [walk_eq,seen_eq,List.flatMap_cons,List.cons_append]
    refine List.Perm.cons n ?_
    have hchildren : (n.children.flatMap walk).Perm (n.hidden ++ n.otherParts.flatMap walk) := by
      rw [hidden,← List.flatMap_append]
      exact n.children_perm.flatMap_right _
    refine hchildren.trans ((hparts.append_left _).trans ?_)
    exact List.perm_append_comm_assoc _ _ _

/-- A node hangs in a pattern that some node at or below this one binds. -/
def PassesOver (n x : Node) : Prop := ∃ y ∈ n.walk, ∃ q ∈ y.boundPatterns, x ∈ q.walk

/-- Where no node hangs twice, exactly those in patterns are not seen. -/
lemma mem_seen_iff (hnodup : n.walk.Nodup) (hx : x ∈ n.walk) : x ∈ n.seen ↔ ¬n.PassesOver x := by
  have hperm := n.walk_perm
  have hhidden : n.PassesOver x → x ∈ n.seen.flatMap hidden := by
    rintro ⟨y,hy,q,hq,hx⟩
    obtain hy | hy := List.mem_append.mp (hperm.subset hy)
    · exact List.mem_flatMap.mpr ⟨y,hy,List.mem_flatMap.mpr ⟨q,hq,hx⟩⟩
    · obtain ⟨z,hz,hy⟩ := List.mem_flatMap.mp hy
      obtain ⟨r,hr,hy⟩ := List.mem_flatMap.mp hy
      have hx := mem_walk_trans hy (mem_walk_of_mem_children (mem_children_of_mem_boundPatterns hq) hx)
      exact List.mem_flatMap.mpr ⟨z,hz,List.mem_flatMap.mpr ⟨r,hr,hx⟩⟩
  constructor
  · intro hseen hpassed
    exact (List.nodup_append.mp (hperm.nodup hnodup)).2.2 x hseen x (hhidden hpassed) rfl
  · intro hpassed
    refine (List.mem_append.mp (hperm.subset hx)).resolve_right fun h => hpassed ?_
    obtain ⟨y,hy,h⟩ := List.mem_flatMap.mp h
    obtain ⟨q,hq,h⟩ := List.mem_flatMap.mp h
    exact ⟨y,hperm.symm.subset (List.mem_append_left _ hy),q,hq,h⟩

end QmlCodeModel.Node
